import RubyOnBareMetal.Shell.Vfs

namespace RubyOnBareMetal.Shell

open Foundation

/-!
# Listing with any strings as keys

The shell stores a file under whatever it is told.  The entry of a key is the
first field of what follows the prefix of the directory, and a string of
slashes only has no fields.
-/

/-- The file system, with any strings as keys. -/
def anyKeyMachine : Machine Vfs VfsCall Unit where
  step := vfsMachine.step
  admits _ _ := True

/-- The entry of what follows the prefix: a name, or a directory and `/`. -/
inductive EntryName : Path → Path → Prop where
  | file
      {name : Path}
      (noSlash : slash ∉ name) :
      EntryName name name
  | directory
      {name : Path}
      (more : Path)
      (noSlash : slash ∉ name) :
      EntryName (name ++ slash :: more) (name ++ [slash])

/-- Every key under the prefix has one of the entries, and they no others. -/
structure ListsKeys
    (vfs : Vfs)
    (dir : Path)
    (entries : List Path) : Prop where
  ascending : entries.Pairwise (· < ·)
  contributes :
    ∀ rest,
      Vfs.listPrefix dir ++ rest ∈ vfs.keys →
      ∃! entry, entry ∈ entries ∧ EntryName rest entry
  contributed :
    ∀ entry ∈ entries,
      ∃ rest,
        Vfs.listPrefix dir ++ rest ∈ vfs.keys ∧ EntryName rest entry

/-- A directory is listed, and its listing is right. -/
def Listable (vfs : Vfs) (dir : Path) : Prop :=
  ∃ entries, vfs.list dir = some entries ∧ ListsKeys vfs dir entries

/-- Two slashes at the end. -/
def EndsInSlashes (path : Path) : Prop :=
  [slash, slash] <:+ path

/-- A call that stores nothing under a key with two slashes at its end. -/
def VfsCall.Harmless : VfsCall → Prop
  | .write path _ => ¬EndsInSlashes path
  | .delete _ => True

/-! ## The entry of a key -/

/-- There is no entry if only slashes follow the prefix. -/
theorem listEntry_eq_none_iff
    (start rest : Path) :
    Vfs.listEntry start (start ++ rest) = none ↔
      ∃ count, rest = List.replicate (count + 1) slash := by
  rw [Vfs.listEntry, List.drop_left]
  by_cases hasSlash : slash ∈ rest
  · rw [if_pos hasSlash, Option.map_eq_none_iff, List.head?_eq_none_iff,
      Ruby.split_eq_nil_iff]
    constructor
    · rintro ⟨_ | count, rfl⟩
      · exact absurd hasSlash List.not_mem_nil
      · exact ⟨count, rfl⟩
    · rintro ⟨count, rfl⟩
      exact ⟨count + 1, rfl⟩
  · rw [if_neg hasSlash]
    refine iff_of_false (Option.some_ne_none rest) ?_
    rintro ⟨count, rfl⟩
    exact hasSlash (List.mem_replicate.mpr ⟨Nat.succ_ne_zero count, rfl⟩)

/-- An entry that is found is the one of the key. -/
theorem entryName_iff
    {start rest entry : Path}
    (found : (Vfs.listEntry start (start ++ rest)).isSome) :
    EntryName rest entry ↔
      Vfs.listEntry start (start ++ rest) = some entry := by
  have ofName {other : Path} (isEntry : EntryName rest other) :
      Vfs.listEntry start (start ++ rest) = some other := by
    rw [Vfs.listEntry, List.drop_left] at found ⊢
    cases isEntry with
    | file noSlash =>
        rw [if_neg noSlash]
    | @directory name more noSlash =>
        have hasSlash : slash ∈ name ++ slash :: more :=
          List.mem_append_right name List.mem_cons_self
        rw [if_pos hasSlash, Option.isSome_map, List.isSome_head?]
          at found
        rw [if_pos hasSlash, Ruby.head?_split more noSlash found]
        rfl
  refine ⟨ofName, fun listed => ?_⟩
  have someName : ∃ other, EntryName rest other := by
    by_cases hasSlash : slash ∈ rest
    · obtain ⟨name, more, rfl, noSlash⟩ :=
        List.eq_append_cons_of_mem hasSlash
      exact ⟨_, .directory more noSlash⟩
    · exact ⟨rest, .file hasSlash⟩
  obtain ⟨other, isEntry⟩ := someName
  have same := Option.some.inj (listed.symm.trans (ofName isEntry))
  rwa [same]

/-! ## The listing of a directory -/

/--
A directory is listed rightly if and only if no key is its prefix followed by
slashes only.
-/
theorem listable_iff (vfs : Vfs) (dir : Path) :
    Listable vfs dir ↔
      ∀ count,
        Vfs.listPrefix dir ++ List.replicate (count + 1) slash ∉
          vfs.keys := by
  have under (rest : Path) :
      (Vfs.listPrefix dir).isPrefixOf (Vfs.listPrefix dir ++ rest) = true :=
    List.isPrefixOf_iff_prefix.mpr (List.prefix_append _ rest)
  constructor
  · rintro ⟨entries, listed, -⟩ count stored
    rw [Vfs.list, Option.map_eq_some_iff] at listed
    obtain ⟨images, mapped, -⟩ := listed
    obtain ⟨entry, found⟩ :=
      Ruby.maps_of_mapM_some mapped _
        (List.mem_filter.mpr ⟨stored, under _⟩)
    have missing :=
      (listEntry_eq_none_iff (Vfs.listPrefix dir) _).mpr ⟨count, rfl⟩
    rw [missing] at found
    cases found
  · intro noSlashes
    have found (rest : Path)
        (stored : Vfs.listPrefix dir ++ rest ∈ vfs.keys) :
        (Vfs.listEntry (Vfs.listPrefix dir)
          (Vfs.listPrefix dir ++ rest)).isSome := by
      rw [Option.isSome_iff_ne_none, Ne, listEntry_eq_none_iff]
      rintro ⟨count, rfl⟩
      exact noSlashes count stored
    obtain ⟨entries, isList, ascending, exactly⟩ :=
      list_of_entries fun key stored isUnder => by
        obtain ⟨rest, rfl⟩ := List.isPrefixOf_iff_prefix.mp isUnder
        exact Option.isSome_iff_exists.mp (found rest stored)
    refine ⟨entries, isList, ascending, ?_, ?_⟩
    · intro rest stored
      obtain ⟨entry, listed⟩ :=
        Option.isSome_iff_exists.mp (found rest stored)
      have member : entry ∈ entries :=
        (exactly entry).mpr ⟨_, stored, under rest, listed⟩
      refine ⟨entry,
        ⟨member, (entryName_iff (found rest stored)).mpr listed⟩, ?_⟩
      rintro other ⟨-, isEntry⟩
      have alsoListed := (entryName_iff (found rest stored)).mp isEntry
      exact Option.some.inj (alsoListed.symm.trans listed)
    · intro entry member
      obtain ⟨key, stored, isUnder, listed⟩ := (exactly entry).mp member
      obtain ⟨rest, rfl⟩ := List.isPrefixOf_iff_prefix.mp isUnder
      exact ⟨rest, stored, (entryName_iff (found rest stored)).mpr listed⟩

/-! ## All directories -/

/-- The prefix of a directory ends in a slash. -/
theorem exists_listPrefix (dir : Path) :
    ∃ start, Vfs.listPrefix dir = start ++ [slash] := by
  by_cases root : dir = [slash]
  · exact ⟨[], if_pos root⟩
  · exact ⟨dir, if_neg root⟩

/--
Every directory is listed rightly if and only if no key ends in two slashes.
-/
theorem all_listable_iff (vfs : Vfs) :
    (∀ dir, Listable vfs dir) ↔ ∀ key ∈ vfs.keys, ¬EndsInSlashes key := by
  constructor
  · rintro listable key stored ⟨start, rfl⟩
    by_cases root : start = [slash]
    · -- the directory of `///` is `/`, whose prefix is no longer than it
      subst root
      exact (listable_iff vfs [slash]).mp (listable [slash]) 1 stored
    · refine (listable_iff vfs start).mp (listable start) 0 ?_
      rw [Vfs.listPrefix, if_neg root, List.append_assoc]
      exact stored
  · intro noSlashes dir
    rw [listable_iff]
    intro count stored
    obtain ⟨start, shape⟩ := exists_listPrefix dir
    refine noSlashes _ stored ⟨start ++ List.replicate count slash, ?_⟩
    have moved :
        List.replicate count slash ++ [slash, slash] =
          [slash] ++ List.replicate (count + 1) slash := by
      rw [List.singleton_append, ← List.replicate_succ,
        List.replicate_succ', List.replicate_succ', List.append_assoc]
      rfl
    rw [shape, List.append_assoc, List.append_assoc, moved]

/-- A call keeps all directories listable exactly if it is harmless. -/
theorem step_listable_iff
    {vfs : Vfs}
    (listable : ∀ dir, Listable vfs dir)
    (call : VfsCall) :
    (∀ dir, Listable (anyKeyMachine.step vfs call).2 dir) ↔
      call.Harmless := by
  rw [all_listable_iff] at listable ⊢
  cases call with
  | write path content =>
      have stored (key : Path) :
          key ∈ (vfs.write path content).keys ↔
            key = path ∨ key ∈ vfs.keys :=
        Ruby.Hash.mem_keys_store
      constructor
      · intro noSlashes
        exact noSlashes path ((stored path).mpr (.inl rfl))
      · intro harmless key member
        rcases (stored key).mp member with rfl | before
        · exact harmless
        · exact listable key before
  | delete path =>
      refine iff_of_true ?_ trivial
      intro key member
      exact listable key (Ruby.Hash.mem_keys_delete.mp member).2

/--
For any writes and deletions: in every state on the way every directory is
listed, with exactly one entry for each key under its prefix, if and only if
nothing is written to a key that ends in two slashes.
-/
theorem listings_never_fail_iff (calls : List VfsCall) :
    (∀ earlier later,
        calls = earlier ++ later →
        ∀ dir, Listable (anyKeyMachine.run [] earlier) dir) ↔
      ∀ call ∈ calls, call.Harmless := by
  have emptyListable : ∀ dir, Listable [] dir :=
    (all_listable_iff []).mpr (List.forall_mem_nil _)
  have allAdmitted : anyKeyMachine.Admissible [] calls :=
    anyKeyMachine.admissible_of_forall (fun _ _ => trivial) [] calls
  rw [← Machine.admissible_iff_forall_mem
    ⟨anyKeyMachine.step, fun _ call => call.Harmless⟩
    (fun _ _ => Iff.rfl) [] calls]
  exact @Machine.run_always_iff _ _ _ anyKeyMachine (fun _ => True)
    (fun vfs => ∀ dir, Listable vfs dir) (fun _ call => call.Harmless)
    (fun _ _ => trivial)
    (fun _ listable _ => step_listable_iff listable _)
    [] calls trivial emptyListable allAdmitted

/-- After a write to `//` not even `/` is listed. -/
theorem slashes_break_root :
    ¬∀ earlier later,
      [VfsCall.write [0x2F, 0x2F] [], .write [0x2F, 0x61] []] =
        earlier ++ later →
      ∀ dir, Listable (anyKeyMachine.run [] earlier) dir := by
  intro always
  obtain ⟨entries, listed, -⟩ :=
    always [.write [0x2F, 0x2F] [], .write [0x2F, 0x61] []] [] rfl [slash]
  have raised :
      (anyKeyMachine.run []
        [.write [0x2F, 0x2F] [], .write [0x2F, 0x61] []]).list [slash] =
          none := by
    decide +kernel
  cases raised.symm.trans listed

end RubyOnBareMetal.Shell
