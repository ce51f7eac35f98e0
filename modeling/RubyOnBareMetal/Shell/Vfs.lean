import Mathlib.Data.List.Induction
import RubyOnBareMetal.Foundation.Machine
import RubyOnBareMetal.Shell.Paths

namespace RubyOnBareMetal.Shell

open Foundation

/-!
# The writable file system of `ruby/scripts/init.rb`

`VFS` keeps files in one hash from paths to contents.  Directories are not
stored: they are what the paths of the files have in common, and `VFS.list`
cuts them out of the keys.
-/

/-- `$vfs`. -/
abbrev Vfs := Ruby.Hash Path (List UInt8)

namespace Vfs

/-- `VFS.write`. -/
def write (vfs : Vfs) (path : Path) (content : List UInt8) : Vfs :=
  Ruby.Hash.store vfs path content

/-- `VFS.delete`. -/
def delete (vfs : Vfs) (path : Path) : Vfs :=
  Ruby.Hash.delete vfs path

/-- The `prefix` of `VFS.list`. -/
def listPrefix (dir : Path) : Path :=
  if dir = [slash] then [slash] else dir ++ [slash]

/-- The entry of a key; `none` is the error when there is no first field. -/
def listEntry (start key : Path) : Option Path :=
  let rest := key.drop start.length
  if slash ∈ rest then
    (Ruby.split slash rest).head?.map fun field => field ++ [slash]
  else
    some rest

/-- `VFS.list`. -/
def list (vfs : Vfs) (dir : Path) : Option (List Path) :=
  ((vfs.keys.filter fun key => (listPrefix dir).isPrefixOf key).mapM
    (listEntry (listPrefix dir))).map Ruby.uniqSort

end Vfs

/-- A call that changes the file system. -/
inductive VfsCall where
  | write (path : Path) (content : List UInt8)
  | delete (path : Path)
  deriving Repr, DecidableEq

/-- The path of a call. -/
def VfsCall.path : VfsCall → Path
  | .write path _ => path
  | .delete path => path

/-- The file system, with normalised absolute paths as keys. -/
def vfsMachine : Machine Vfs VfsCall Unit where
  step vfs
    | .write path content => ((), vfs.write path content)
    | .delete path => ((), vfs.delete path)
  admits _ call := IsKey call.path

/-! ## What a listing is for -/

/-- The path by which a directory is listed. -/
def directoryPath (components : List Path) : Path :=
  if components = [] then [slash] else pathOf components

/-- The entries of a directory: its files, and directories on the way down. -/
structure ListsExactly
    (vfs : Vfs)
    (directory : List Path)
    (entries : List Path) : Prop where
  ascending : entries.Pairwise (· < ·)
  exact :
    ∀ entry,
      entry ∈ entries ↔
        (IsName entry ∧ pathOf (directory ++ [entry]) ∈ vfs.keys) ∨
          ∃ name below,
            entry = name ++ [slash] ∧
              IsName name ∧
              below ≠ [] ∧
              Names below ∧
              pathOf (directory ++ name :: below) ∈ vfs.keys

/-- A name inside a directory. -/
def childPath (dir name : Path) : Path :=
  if dir = [slash] then slash :: name else dir ++ slash :: name

/-- The directories that are found by listing, from `/` on. -/
inductive Found (vfs : Vfs) : Path → Prop where
  | root : Found vfs [slash]
  | descend
      {dir name : Path}
      {entries : List Path}
      (found : Found vfs dir)
      (listed : vfs.list dir = some entries)
      (entry : name ++ [slash] ∈ entries) :
      Found vfs (childPath dir name)

/-- A file that is listed in a directory that is found. -/
abbrev FileFound (vfs : Vfs) (key : Path) : Prop :=
  ∃ dir name entries,
    Found vfs dir ∧
      vfs.list dir = some entries ∧
      name ∈ entries ∧
      slash ∉ name ∧
      key = childPath dir name

/-! ## The listing of a directory -/

/-- Every key is a normalised absolute path. -/
abbrev WellKeyed (vfs : Vfs) : Prop :=
  ∀ key ∈ vfs.keys, IsKey key

/-- Writing and deleting such paths leaves only such paths. -/
theorem wellKeyed_step
    {vfs : Vfs}
    {call : VfsCall}
    (wellKeyed : WellKeyed vfs)
    (admitted : IsKey call.path) :
    WellKeyed (vfsMachine.step vfs call).2 := by
  intro key member
  cases call with
  | write path content =>
      rcases Ruby.Hash.mem_keys_store.mp member with rfl | before
      · exact admitted
      · exact wellKeyed key before
  | delete path =>
      exact wellKeyed key (Ruby.Hash.mem_keys_delete.mp member).2

/-- The prefix under which the keys below a directory are found. -/
theorem listPrefix_pathOf
    {directory : List Path}
    (names : Names directory) :
    Vfs.listPrefix (pathOf directory) = pathOf directory ++ [slash] := by
  exact if_neg (pathOf_ne_root names)

/-- `/` is listed like the empty directory of a file in it. -/
theorem list_directoryPath
    (vfs : Vfs)
    {directory : List Path}
    (names : Names directory) :
    vfs.list (directoryPath directory) = vfs.list (pathOf directory) := by
  have samePrefix :
      Vfs.listPrefix (directoryPath directory) =
        Vfs.listPrefix (pathOf directory) := by
    cases directory with
    | nil => rfl
    | cons name directory => rfl
  rw [Vfs.list, Vfs.list, samePrefix]

/-- The path of a file below a directory has the prefix of the directory. -/
theorem pathOf_below
    (directory : List Path)
    (name : Path)
    (more : List Path) :
    pathOf (directory ++ name :: more) =
      (pathOf directory ++ [slash]) ++ (name ++ pathOf more) := by
  rw [pathOf_append, pathOf_cons, List.append_assoc,
    List.singleton_append]

/-- The entry of a file below a directory. -/
def entryOf (name : Path) (more : List Path) : Path :=
  if more = [] then name else name ++ [slash]

/-- The entry of a key is its first component below the directory. -/
theorem listEntry_below
    {directory more : List Path}
    {name : Path}
    (isName : IsName name)
    (names : Names more) :
    Vfs.listEntry (pathOf directory ++ [slash])
        (pathOf (directory ++ name :: more)) =
      some (entryOf name more) := by
  have rest :
      (pathOf (directory ++ name :: more)).drop
          (pathOf directory ++ [slash]).length =
        name ++ pathOf more := by
    rw [pathOf_below, List.drop_left]
  rw [Vfs.listEntry, rest]
  cases more with
  | nil =>
      have noSlash : slash ∉ name ++ pathOf [] := by
        rw [pathOf_nil, List.append_nil]
        exact isName.2
      rw [if_neg noSlash, pathOf_nil, List.append_nil]
      rfl
  | cons second more =>
      have hasSlash : slash ∈ name ++ pathOf (second :: more) := by
        rw [pathOf_cons]
        exact List.mem_append_right _ List.mem_cons_self
      rw [if_pos hasSlash,
        split_components isName.2 names (.inl isName.1)]
      rfl

/-- The keys under the prefix of a directory are the files below it. -/
theorem below_iff
    {directory : List Path}
    (names : Names directory)
    {key : Path}
    (isKey : IsKey key) :
    (pathOf directory ++ [slash]).isPrefixOf key = true ↔
      ∃ name more,
        key = pathOf (directory ++ name :: more) ∧
          IsName name ∧ Names more := by
  rw [List.isPrefixOf_iff_prefix]
  constructor
  · rintro ⟨rest, below⟩
    obtain ⟨components, _, namesKey, rfl⟩ := isKey
    rw [List.append_assoc, List.singleton_append] at below
    obtain ⟨name, more, rfl, _⟩ :=
      components_below names namesKey below.symm
    have namesBelow := (List.forall_mem_append.mp namesKey).2
    exact ⟨name, more, rfl, List.forall_mem_cons.mp namesBelow⟩
  · rintro ⟨name, more, rfl, _⟩
    rw [pathOf_below]
    exact List.prefix_append _ _

/-- A listing has the entries of the keys under the prefix, if all have one. -/
theorem list_of_entries
    {vfs : Vfs}
    {dir : Path}
    (hasEntry :
      ∀ key ∈ vfs.keys,
        (Vfs.listPrefix dir).isPrefixOf key = true →
        ∃ entry, Vfs.listEntry (Vfs.listPrefix dir) key = some entry) :
    ∃ entries,
      vfs.list dir = some entries ∧
        entries.Pairwise (· < ·) ∧
        ∀ entry,
          entry ∈ entries ↔
            ∃ key ∈ vfs.keys,
              (Vfs.listPrefix dir).isPrefixOf key = true ∧
                Vfs.listEntry (Vfs.listPrefix dir) key = some entry := by
  obtain ⟨images, mapped, exactly⟩ :=
    Ruby.mapM_some fun key selected =>
      hasEntry key (List.mem_filter.mp selected).1
        (List.mem_filter.mp selected).2
  refine ⟨Ruby.uniqSort images, ?_, Ruby.ascending_uniqSort images, ?_⟩
  · rw [Vfs.list, mapped]
    rfl
  · intro entry
    simp only [Ruby.mem_uniqSort, exactly, List.mem_filter, and_assoc]

/-- The listing of a directory is exact. -/
theorem list_exact
    {vfs : Vfs}
    (wellKeyed : WellKeyed vfs)
    {directory : List Path}
    (names : Names directory) :
    ∃ entries, vfs.list (pathOf directory) = some entries ∧
      ListsExactly vfs directory entries := by
  have start := listPrefix_pathOf names
  have below {key : Path} (stored : key ∈ vfs.keys) :
      (Vfs.listPrefix (pathOf directory)).isPrefixOf key = true ↔
        ∃ name more,
          key = pathOf (directory ++ name :: more) ∧
            IsName name ∧ Names more := by
    rw [start]
    exact below_iff names (wellKeyed key stored)
  have listed
      {name : Path}
      {more : List Path}
      (isName : IsName name)
      (namesMore : Names more) :
      Vfs.listEntry (Vfs.listPrefix (pathOf directory))
          (pathOf (directory ++ name :: more)) =
        some (entryOf name more) := by
    rw [start]
    exact listEntry_below isName namesMore
  obtain ⟨entries, isList, ascending, exactly⟩ :=
    list_of_entries fun key stored under => by
      obtain ⟨name, more, rfl, isName, namesMore⟩ := (below stored).mp under
      exact ⟨_, listed isName namesMore⟩
  refine ⟨entries, isList, ascending, fun entry => ?_⟩
  rw [exactly]
  constructor
  · rintro ⟨key, stored, under, found⟩
    obtain ⟨name, more, rfl, isName, namesMore⟩ := (below stored).mp under
    rw [listed isName namesMore] at found
    obtain rfl := Option.some.inj found
    cases more with
    | nil => exact .inl ⟨isName, stored⟩
    | cons second more =>
        exact .inr ⟨name, second :: more, rfl, isName,
          List.cons_ne_nil _ _, namesMore, stored⟩
  · rintro (⟨isName, stored⟩ |
      ⟨name, more, rfl, isName, nonempty, namesMore, stored⟩)
    · have noMore : Names [] := List.forall_mem_nil _
      exact ⟨_, stored, (below stored).mpr ⟨entry, [], rfl, isName, noMore⟩,
        listed isName noMore⟩
    · refine ⟨_, stored,
        (below stored).mpr ⟨name, more, rfl, isName, namesMore⟩, ?_⟩
      rw [listed isName namesMore, entryOf, if_neg nonempty]

/-! ## Files and their directories -/

/-- A key has a directory and a name. -/
theorem directory_and_name
    {key : Path}
    (isKey : IsKey key) :
    ∃ directory name,
      Names (directory ++ [name]) ∧ key = pathOf (directory ++ [name]) := by
  obtain ⟨components, nonempty, names, rfl⟩ := isKey
  refine ⟨components.dropLast, components.getLast nonempty, ?_, ?_⟩
  · rwa [List.dropLast_concat_getLast nonempty]
  · rw [List.dropLast_concat_getLast nonempty]

/-- A name inside a directory is one more component. -/
theorem childPath_directoryPath
    {directory : List Path}
    (names : Names directory)
    (name : Path) :
    childPath (directoryPath directory) name =
      pathOf (directory ++ [name]) := by
  have appended :
      pathOf (directory ++ [name]) = pathOf directory ++ slash :: name := by
    rw [pathOf_append, pathOf_cons, pathOf_nil, List.append_nil]
  rw [appended]
  cases directory with
  | nil =>
      rfl
  | cons first directory =>
      exact if_neg (pathOf_ne_root names)

/-- The directory of a stored file lists its base name. -/
theorem basename_listed
    {vfs : Vfs}
    (wellKeyed : WellKeyed vfs)
    {key : Path}
    (stored : key ∈ vfs.keys) :
    ∃ entries,
      vfs.list (dirname key) = some entries ∧ basename key ∈ entries := by
  obtain ⟨directory, name, names, rfl⟩ :=
    directory_and_name (wellKeyed key stored)
  obtain ⟨namesDirectory, namesName⟩ := List.forall_mem_append.mp names
  obtain ⟨entries, listed, exactly⟩ := list_exact wellKeyed namesDirectory
  rw [dirname_pathOf names, basename_pathOf names]
  refine ⟨entries, listed, (exactly.exact name).mpr (.inl ⟨?_, stored⟩)⟩
  exact namesName name List.mem_cons_self

/-- The directories on the way to a stored file are found. -/
theorem directories_found
    {vfs : Vfs}
    (wellKeyed : WellKeyed vfs)
    {directory below : List Path}
    (names : Names (directory ++ below))
    (nonempty : below ≠ [])
    (stored : pathOf (directory ++ below) ∈ vfs.keys) :
    Found vfs (directoryPath directory) := by
  induction directory using List.reverseRecOn generalizing below with
  | nil =>
      exact .root
  | append_singleton outer name inductionHypothesis =>
      rw [List.append_assoc, List.singleton_append] at names stored
      have found := inductionHypothesis names (List.cons_ne_nil _ _) stored
      obtain ⟨namesOuter, namesRest⟩ := List.forall_mem_append.mp names
      obtain ⟨isName, namesBelow⟩ := List.forall_mem_cons.mp namesRest
      obtain ⟨entries, listed, exactly⟩ := list_exact wellKeyed namesOuter
      have entry : name ++ [slash] ∈ entries :=
        (exactly.exact _).mpr
          (.inr ⟨name, below, rfl, isName, nonempty, namesBelow, stored⟩)
      rw [← list_directoryPath vfs namesOuter] at listed
      have next := found.descend listed entry
      rw [childPath_directoryPath namesOuter] at next
      have notRoot : outer ++ [name] ≠ [] := by
        simp
      rw [directoryPath, if_neg notRoot]
      exact next

/-- Every stored file is found by descending from `/`. -/
theorem file_found
    {vfs : Vfs}
    (wellKeyed : WellKeyed vfs)
    {key : Path}
    (stored : key ∈ vfs.keys) :
    FileFound vfs key := by
  obtain ⟨directory, name, names, rfl⟩ :=
    directory_and_name (wellKeyed key stored)
  obtain ⟨namesDirectory, namesName⟩ := List.forall_mem_append.mp names
  have isName := namesName name List.mem_cons_self
  obtain ⟨entries, listed, exactly⟩ := list_exact wellKeyed namesDirectory
  have found :=
    directories_found wellKeyed names (List.cons_ne_nil _ _) stored
  rw [← list_directoryPath vfs namesDirectory] at listed
  exact ⟨directoryPath directory, name, entries, found, listed,
    (exactly.exact name).mpr (.inl ⟨isName, stored⟩), isName.2,
    (childPath_directoryPath namesDirectory name).symm⟩

/--
After any writes and deletions of normalised absolute paths, the listing of
every directory is exact, the directory of every stored file lists its base
name, and every stored file is found by descending from `/`.
-/
theorem listings_are_exact
    (calls : List VfsCall)
    (admissible : vfsMachine.Admissible [] calls) :
    (∀ directory,
      Names directory →
      ∃ entries,
        (vfsMachine.run [] calls).list (directoryPath directory) =
            some entries ∧
          ListsExactly (vfsMachine.run [] calls) directory entries) ∧
      (∀ key ∈ (vfsMachine.run [] calls).keys,
        ∃ entries,
          (vfsMachine.run [] calls).list (dirname key) = some entries ∧
            basename key ∈ entries) ∧
      ∀ key ∈ (vfsMachine.run [] calls).keys,
        FileFound (vfsMachine.run [] calls) key := by
  have wellKeyed : WellKeyed (vfsMachine.run [] calls) :=
    vfsMachine.run_invariant wellKeyed_step
      (List.forall_mem_nil _) admissible
  refine ⟨?_, fun key => basename_listed wellKeyed,
    fun key => file_found wellKeyed⟩
  intro directory names
  rw [list_directoryPath _ names]
  exact list_exact wellKeyed names

/-- `/a/b`, `/a/c` and `/d`, of which `/d` is deleted again. -/
def fewCalls : List VfsCall := [
  .write [0x2F, 0x61, 0x2F, 0x62] [],
  .write [0x2F, 0x64] [],
  .write [0x2F, 0x61, 0x2F, 0x63] [],
  .delete [0x2F, 0x64]
]

/-- The listing of `/` after a few calls. -/
theorem listings_after_fewCalls :
    vfsMachine.Admissible [] fewCalls ∧
      ∃ entries,
        (vfsMachine.run [] fewCalls).list [slash] = some entries ∧
          ListsExactly (vfsMachine.run [] fewCalls) [] entries := by
  have ab : IsKey [0x2F, 0x61, 0x2F, 0x62] :=
    ⟨[[0x61], [0x62]], by decide, by decide, rfl⟩
  have ac : IsKey [0x2F, 0x61, 0x2F, 0x63] :=
    ⟨[[0x61], [0x63]], by decide, by decide, rfl⟩
  have d : IsKey [0x2F, 0x64] :=
    ⟨[[0x64]], by decide, by decide, rfl⟩
  have admissible : vfsMachine.Admissible [] fewCalls :=
    ⟨ab, d, ac, d, trivial⟩
  exact ⟨admissible,
    (listings_are_exact fewCalls admissible).1 [] (List.forall_mem_nil _)⟩

example :
    ((vfsMachine.run [] fewCalls).list [slash],
        (vfsMachine.run [] fewCalls).list [0x2F, 0x61]) =
      (some [[0x61, 0x2F]], some [[0x62], [0x63]]) := by
  decide

end RubyOnBareMetal.Shell
