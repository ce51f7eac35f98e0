import RubyOnBareMetal.Shell.Store

namespace RubyOnBareMetal.Shell

open Foundation

/-!
# The shell is its reference

At its prompt and inside `write` the shell is at points that stand for the
modes of the reference.  What is typed takes it from one to the next, whatever
keys a line is edited with, and it writes and keeps what the reference does.
-/

/-- The hash that stands for a store, with paths in normal form. -/
structure Keeps (vfs : Vfs) (store : Store) : Prop where
  files : ∀ path, vfs.read path = store path
  keyed : WellKeyed vfs
  once : vfs.keys.Nodup

/-- The globals that stand for a view, with what has been written. -/
structure Depicts
    (globals : Globals)
    (view : View)
    (written : List UInt8) : Prop where
  kept : Keeps globals.vfs view.store
  readings : globals.readings = view.readings
  history : globals.history = view.control.history
  output : globals.output = written

/-! ## Files -/

namespace Keeps

variable {vfs : Vfs}
variable {store : Store}

/-- The keys are the paths of files. -/
theorem mem_keys_iff (keeps : Keeps vfs store) (path : Path) :
    path ∈ vfs.keys ↔ (store path).isSome := by
  rw [← keeps.files path, ← Ruby.Hash.isSome_value?]
  rfl

/-- A file is written. -/
theorem write
    (keeps : Keeps vfs store)
    {path : Path}
    (isKey : IsKey path)
    (text : Text) :
    Keeps (vfs.write path text) (store.write path text) where
  files other := by
    by_cases same : other = path
    · subst same
      rw [Store.write, Function.update_self]
      exact Ruby.Hash.value?_store vfs other text
    · rw [Store.write, Function.update_of_ne same, ← keeps.files other]
      exact Ruby.Hash.value?_store_other vfs text same
  keyed key member := by
    rcases Ruby.Hash.mem_keys_store.mp member with rfl | before
    · exact isKey
    · exact keeps.keyed key before
  once := Ruby.Hash.nodup_keys_store keeps.once path text

/-- A file is deleted. -/
theorem erase (keeps : Keeps vfs store) (path : Path) :
    Keeps (vfs.delete path) (store.erase path) where
  files other := by
    have deleted := Ruby.Hash.value?_delete vfs path other
    rw [Store.erase]
    by_cases same : other = path
    · subst same
      rw [if_pos rfl] at deleted
      rw [Function.update_self]
      exact deleted
    · rw [if_neg same] at deleted
      rw [Function.update_of_ne same, ← keeps.files other]
      exact deleted
  keyed key member :=
    keeps.keyed key (Ruby.Hash.mem_keys_delete.mp member).2
  once := Ruby.Hash.nodup_keys_delete keeps.once path

/-- The totals of the hash are those of the store. -/
theorem counts (keeps : Keeps vfs store) :
    store.Counts vfs.keys.length
      (vfs.map fun entry => entry.2.length).sum := by
  refine ⟨vfs.keys.toFinset, fun path => ?_, ?_, ?_⟩
  · rw [List.mem_toFinset]
    exact keeps.mem_keys_iff path
  · rw [List.toFinset_card_of_nodup keeps.once]
  · rw [List.sum_toFinset _ keeps.once, Ruby.Hash.keys, List.map_map]
    refine congrArg List.sum (List.map_congr_left fun entry member => ?_)
    have stored : vfs.read entry.1 = some entry.2 :=
      Ruby.Hash.value?_of_mem keeps.once member
    rw [Function.comp_apply, ← keeps.files, stored]
    rfl

/-- A directory in normal form is listed. -/
theorem list
    (keeps : Keeps vfs store)
    {directory : List Path}
    (names : Names directory) :
    ∃ entries,
      vfs.list (directoryPath directory) = some entries ∧
        store.Lists (directoryPath directory) entries := by
  obtain ⟨entries, listed, exactly⟩ := list_exact keeps.keyed names
  rw [← list_directoryPath _ names] at listed
  refine ⟨entries, listed, exactly.ascending, directory, names, rfl, ?_⟩
  intro entry
  simp only [exactly.exact entry, keeps.mem_keys_iff]

end Keeps

namespace Depicts

variable {globals : Globals}
variable {view : View}
variable {written : List UInt8}

/-- More is written. -/
theorem print
    (depicts : Depicts globals view written)
    (text : List UInt8) :
    Depicts { globals with output := globals.output ++ text } view
      (written ++ text) :=
  { depicts with output := congrArg (· ++ text) depicts.output }

/-- The files are others. -/
theorem keep
    (depicts : Depicts globals view written)
    {vfs : Vfs}
    {store : Store}
    (keeps : Keeps vfs store) :
    Depicts { globals with vfs := vfs } (view.keep store) written :=
  { depicts with kept := keeps }

/-- The mode is no variable of the shell. -/
theorem enter
    (depicts : Depicts globals view written)
    (mode : Mode) :
    Depicts globals (view.enter mode) written :=
  { depicts with }

/-- A line is read. -/
theorem readBy
    (depicts : Depicts globals view written)
    (reader : LineReader) :
    Depicts (globals.readBy reader) view (written ++ reader.output) :=
  { depicts with output := congrArg (· ++ reader.output) depicts.output }

end Depicts

/-! ## Commands -/

section Interpreted

variable {Value : Type}
variable (ruby : Interpreter Value)

/-- Code of a command, with the display of what it raises. -/
def displayed (body : ShellCode Unit) : ShellCode Unit :=
  Raising.rescue (fun _ => true) body fun e => syswrite (raisedText e)

end Interpreted

end RubyOnBareMetal.Shell
