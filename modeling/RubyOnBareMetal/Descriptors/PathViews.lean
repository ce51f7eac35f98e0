import Mathlib.Algebra.GroupWithZero.Nat
import RubyOnBareMetal.Descriptors.Aliasing

namespace RubyOnBareMetal.Descriptors

open Foundation

/-!
# The views of a path

`stat`, `lstat`, `newfstatat` and `access` look at the embedded files only.
They find the entry that `open` hands to `fstat` and `read`.
-/

variable {Console : Type}

/-- The mode and size that `stat` reports for an entry. -/
def Stat.regular (size : UInt64) : Stat where
  stMode := 0o100444
  stRdev := 0
  stSize := size.toInt64

/-- `sys_stat`, which clears the buffer before it looks. -/
def sysStat
    (tables : EmbeddedTables)
    (path : Option CString) :
    Reply :=
  if rubyOnBareMetalFileExists tables path then
    let size :=
      match rubyOnBareMetalEmbeddedFileData tables path with
      | some file => file.size
      | none => 0
    { ret := 0, stat := some ⟨0o100444, 0, size.toInt64⟩ }
  else
    { ret := -Errno.ENOENT, stat := some ⟨0, 0, 0⟩ }

/-- The case `__NR_access`. -/
def sysAccess
    (tables : EmbeddedTables)
    (path : Option CString) :
    Reply :=
  { ret :=
      if rubyOnBareMetalFileExists tables path then 0 else -Errno.ENOENT }

/-- What `stat` says is about the first match. -/
theorem sysStat_eq
    (tables : EmbeddedTables)
    (path : Option CString) :
    sysStat tables path =
      match firstMatch tables path with
      | some file => { ret := 0, stat := some (.regular file.size) }
      | none => { ret := -Errno.ENOENT, stat := some ⟨0, 0, 0⟩ } := by
  rw [sysStat, rubyOnBareMetalFileExists_eq,
    rubyOnBareMetalEmbeddedFileData_eq]
  cases firstMatch tables path with
  | none => rfl
  | some file => rfl

/-- `access` succeeds if there is a first match. -/
theorem sysAccess_eq
    (tables : EmbeddedTables)
    (path : Option CString) :
    (sysAccess tables path).ret =
      match firstMatch tables path with
      | some _ => 0
      | none => -Errno.ENOENT := by
  rw [sysAccess, rubyOnBareMetalFileExists_eq]
  cases firstMatch tables path with
  | none => rfl
  | some file => rfl

/-- `open` does not find a path exactly if there is no first match. -/
theorem sysOpen_not_found_iff
    (tables : EmbeddedTables)
    (kernel : Kernel Console)
    (path : Option CString)
    (flags mode : Int32) :
    (sysOpen tables kernel path flags mode).1.ret = -Errno.ENOENT ↔
      firstMatch tables path = none := by
  rw [sysOpen, rubyOnBareMetalEmbeddedFileData_eq]
  cases firstMatch tables path with
  | none =>
      simp
  | some file =>
      cases freeSlot? kernel.fdTable with
      | none =>
          simp only [reduceCtorEq, iff_false]
          decide
      | some slot =>
          have notError : descriptor slot ≠ -Errno.ENOENT :=
            descriptor_ne_error (by decide) slot
          simpa using notError

/-- `fstat` on a descriptor of a file reports its size. -/
theorem sysFstat_follows
    {kernel : Kernel Console}
    {fd : Int32}
    {slot : Fin maxFd}
    {file : EmbeddedFile}
    {cursor : Cursor UInt8}
    (named : slot? fd = some slot)
    (follows : Follows kernel.fdTable slot cursor)
    (sameFile : cursor.contents = file.data) :
    (sysFstat kernel fd).1 =
      { ret := 0, stat := some (.regular file.size) } := by
  have above : 3 ≤ fd :=
    (three_le_iff_of_slot? named).mpr follows.aboveConsole
  have notConsole : ¬fd ≤ 2 := (not_console_of_three_le above).2.2
  have sameSize : (kernel.fdTable slot).size = file.size := by
    rw [← UInt64.toNat_inj, follows.size, sameFile, file.sizeExact]
  simp [sysFstat, named, notConsole, follows.data, sameSize, Stat.regular]

/-- A read of something returns nothing exactly at the end of the file. -/
theorem sysRead_nothing_iff
    (serial : SerialPort Console)
    {kernel : Kernel Console}
    {fd : Int32}
    {slot : Fin maxFd}
    {cursor : Cursor UInt8}
    {count : UInt64}
    (named : slot? fd = some slot)
    (follows : Follows kernel.fdTable slot cursor)
    (positive : 0 < count) :
    (sysRead serial kernel fd count).1.ret = 0 ↔
      cursor.taken = cursor.contents := by
  obtain ⟨buffer, length, -⟩ :=
    sysRead_follows serial named follows count
  constructor
  · intro nothing
    rw [nothing] at length
    apply Cursor.taken_eq_contents_of_read_nil
      (UInt64.lt_iff_toNat_lt.mp positive)
    rw [← buffer]
    exact List.eq_nil_of_length_eq_zero length.symm
  · intro atEnd
    rw [buffer, Cursor.read_nil_of_taken_eq_contents atEnd] at length
    have zero : (sysRead serial kernel fd count).1.ret.toUInt64 = 0 :=
      UInt64.toNat_inj.mp length
    simpa using congrArg UInt64.toInt64 zero

/--
Until a descriptor is retired, `fstat` on it reports the size of one entry
and the reads return what they ask for of its data, up to its end.
-/
def Shows
    (serial : SerialPort Console)
    (tables : EmbeddedTables)
    (opened : Kernel Console)
    (fd : Int32)
    (file : EmbeddedFile) : Prop :=
  ∀ later : List Call,
    (∀ call ∈ later, ¬call.Retires fd) →
    let machine := descriptorCalls serial tables
    let after := machine.run opened later
    let received := bytesRead fd later (machine.responses opened later)
    let asked := (later.filterMap (Call.countOn? fd)).sum
    (sysFstat after fd).1 =
        { ret := 0, stat := some (.regular file.size) } ∧
      received = file.data.take asked ∧
      ∀ count,
        0 < count →
        ((sysRead serial after fd count).1.ret = 0 ↔
          received = file.data)

/-- A descriptor that starts before the first byte shows its file. -/
theorem shows_of_follows
    (serial : SerialPort Console)
    (tables : EmbeddedTables)
    {opened : Kernel Console}
    {fd : Int32}
    {slot : Fin maxFd}
    {file : EmbeddedFile}
    (named : slot? fd = some slot)
    (start : Follows opened.fdTable slot (Cursor.start file.data)) :
    Shows serial tables opened fd file := by
  intro later alive machine after received asked
  obtain ⟨follows, bytes⟩ := run_follows serial tables named start alive
  have passed :
      (Cursor.reader.run (Cursor.start file.data)
          (later.filterMap (Call.countOn? fd))).taken =
        received := by
    rw [Cursor.taken_run, Cursor.taken_start, List.nil_append]
    exact bytes.symm
  refine ⟨?_, ?_, ?_⟩
  · exact sysFstat_follows named follows (Cursor.contents_run _ _)
  · exact bytes.trans (Cursor.responses_flatten _ _)
  · intro count positive
    rw [sysRead_nothing_iff serial named follows positive, passed,
      Cursor.contents_run, Cursor.start]

/--
For every path, in every state of the table: `access`, `stat` and `open` find
it alike, namely if it has a first match.  `stat` then reports the size of
that entry, and a descriptor that `open` returns shows the same entry.
-/
theorem path_views_agree
    (serial : SerialPort Console)
    (tables : EmbeddedTables)
    (kernel : Kernel Console)
    (path : Option CString)
    (flags mode : Int32) :
    let opening := perform serial tables kernel (.openFile path flags mode)
    let stat := sysStat tables path
    ((sysAccess tables path).ret = 0 ↔ stat.ret = 0) ∧
      (stat.ret = 0 ↔ opening.1.ret ≠ -Errno.ENOENT) ∧
      (stat.ret = 0 ↔ (firstMatch tables path).isSome) ∧
      ∀ file,
        firstMatch tables path = some file →
          stat.stat = some (.regular file.size) ∧
            (Stat.regular file.size).stSize.toUInt64.toNat =
              file.data.length ∧
            ∀ fd : Int32,
              0 ≤ fd →
              opening.1.ret = fd.toInt64 →
              Shows serial tables opening.2 fd file := by
  intro opening stat
  have found : stat.ret = 0 ↔ (firstMatch tables path).isSome := by
    simp only [stat, sysStat_eq]
    cases firstMatch tables path with
    | none => decide
    | some file => simp
  have access : (sysAccess tables path).ret = 0 ↔ stat.ret = 0 := by
    rw [found, sysAccess_eq]
    cases firstMatch tables path with
    | none => decide
    | some file => simp
  have opens : stat.ret = 0 ↔ opening.1.ret ≠ -Errno.ENOENT := by
    have notFound := sysOpen_not_found_iff tables kernel path flags mode
    rw [found, Option.isSome_iff_ne_none]
    exact not_congr notFound.symm
  refine ⟨access, opens, found, ?_⟩
  intro file isFirst
  refine ⟨?_, ?_, ?_⟩
  · simp [stat, sysStat_eq, isFirst]
  · simpa [Stat.regular] using file.sizeExact
  · intro fd succeeded returned
    obtain ⟨opened, slot, data, named, start⟩ :=
      open_follows serial tables rfl returned succeeded
    rw [rubyOnBareMetalEmbeddedFileData_eq, isFirst] at data
    cases data
    exact shows_of_follows serial tables named start

end RubyOnBareMetal.Descriptors
