import RubyOnBareMetal.Descriptors.Reading

namespace RubyOnBareMetal.Descriptors

open Foundation

/-!
# Positional access to an embedded file

`lseek` and `pread64` succeed with 0 on every descriptor and do nothing, so
of the three calls that should share a position only `read` has one.
-/

variable {Console : Type}

/-- `SEEK_SET`, `SEEK_CUR` and `SEEK_END`. -/
abbrev seekSet : Int32 := 0
abbrev seekCur : Int32 := 1
abbrev seekEnd : Int32 := 2

/-- The case `__NR_lseek`. -/
def sysLseek
    (kernel : Kernel Console)
    (_fd : Int32)
    (_offset : Int64)
    (_whence : Int32) :
    Reply × Kernel Console :=
  ({ ret := 0 }, kernel)

/-- The case `__NR_pread64`. -/
def sysPread64
    (kernel : Kernel Console)
    (_fd : Int32)
    (_count : UInt64)
    (_offset : Int64) :
    Reply × Kernel Console :=
  ({ ret := 0 }, kernel)

/-! ## One notion of position -/

/-- An offset is one of the positions in a file, its end included. -/
def Within (offset : Int64) (data : List UInt8) : Prop :=
  0 ≤ offset.toInt ∧ offset.toInt ≤ data.length

/-- The bytes of a file from an offset on, up to a count. -/
def bytesFrom
    (data : List UInt8)
    (offset : Int64)
    (count : UInt64) :
    List UInt8 :=
  (data.drop offset.toInt.toNat).take count.toNat

/--
Positional and sequential access agree on a descriptor of a file of which
some bytes are consumed.
-/
structure SharesPosition
    (serial : SerialPort Console)
    (kernel : Kernel Console)
    (fd : Int32)
    (data : List UInt8)
    (consumed : Nat) : Prop where
  pread :
    ∀ offset count,
      Within offset data →
      let outcome := sysPread64 kernel fd count offset
      outcome.1.buffer = bytesFrom data offset count ∧
        outcome.1.ret.toUInt64.toNat = outcome.1.buffer.length ∧
        outcome.2.fdTable = kernel.fdTable
  set :
    ∀ offset count,
      Within offset data →
      let sought := sysLseek kernel fd offset seekSet
      sought.1.ret = offset ∧
        (sysRead serial sought.2 fd count).1.buffer =
          bytesFrom data offset count
  current :
    (sysLseek kernel fd 0 seekCur).1.ret.toUInt64.toNat = consumed
  atEnd :
    (sysLseek kernel fd 0 seekEnd).1.ret.toUInt64.toNat = data.length

/-- `pread64` is right where there is nothing to return. -/
theorem sysPread64_iff
    (kernel : Kernel Console)
    (fd : Int32)
    {data : List UInt8}
    {offset : Int64}
    (count : UInt64)
    (within : Within offset data) :
    (sysPread64 kernel fd count offset).1.buffer =
        bytesFrom data offset count ↔
      count = 0 ∨ offset.toInt = data.length := by
  obtain ⟨notNegative, inside⟩ := within
  have noCount : count.toNat = 0 ↔ count = 0 := by
    rw [← UInt64.toNat_inj]
    rfl
  change [] = bytesFrom data offset count ↔ _
  rw [eq_comm, bytesFrom, List.take_eq_nil_iff, noCount,
    List.drop_eq_nil_iff]
  refine or_congr_right ?_
  omega

/-- Seeking to an offset is right at the beginning of the file. -/
theorem sysLseek_set_iff
    (kernel : Kernel Console)
    (fd : Int32)
    (offset : Int64) :
    (sysLseek kernel fd offset seekSet).1.ret = offset ↔ offset = 0 :=
  eq_comm

/-- A read after seeking continues where the last one stopped. -/
theorem sysRead_after_sysLseek
    (serial : SerialPort Console)
    {kernel : Kernel Console}
    {fd : Int32}
    {slot : Fin maxFd}
    {cursor : Cursor UInt8}
    (named : slot? fd = some slot)
    (follows : Follows kernel.fdTable slot cursor)
    (offset : Int64)
    (whence : Int32)
    (count : UInt64) :
    let sought := sysLseek kernel fd offset whence
    (sysRead serial sought.2 fd count).1.buffer =
      (cursor.read count.toNat).1 :=
  (sysRead_follows serial named follows count).1

/-- A reported position is right only at the beginning of the file. -/
theorem sysLseek_ret_iff
    (kernel : Kernel Console)
    (fd : Int32)
    (offset : Int64)
    (whence : Int32)
    (position : Nat) :
    (sysLseek kernel fd offset whence).1.ret.toUInt64.toNat = position ↔
      position = 0 :=
  eq_comm

/--
For every descriptor of a file, after any calls that do not retire it,
positional and sequential access agree if and only if the file is empty.
-/
theorem positions_agree_iff
    (serial : SerialPort Console)
    (tables : EmbeddedTables)
    (kernel : Kernel Console)
    {fd : Int32}
    {slot : Fin maxFd}
    {cursor : Cursor UInt8}
    (later : List Call)
    (named : slot? fd = some slot)
    (follows : Follows kernel.fdTable slot cursor)
    (alive : ∀ call ∈ later, ¬call.Retires fd) :
    let machine := descriptorCalls serial tables
    let received := bytesRead fd later (machine.responses kernel later)
    SharesPosition serial (machine.run kernel later) fd cursor.contents
        (cursor.position + received.length) ↔
      cursor.contents = [] := by
  intro machine received
  obtain ⟨-, after, followsAfter, sameFile, passed⟩ :=
    run_takes serial tables named follows alive
  have position : after.position = cursor.position + received.length := by
    have lengths := congrArg List.length passed
    rwa [List.length_append, Cursor.length_taken, Cursor.length_taken]
      at lengths
  constructor
  · intro shares
    have noBytes := (sysLseek_ret_iff _ fd 0 seekEnd _).mp shares.atEnd
    exact List.eq_nil_of_length_eq_zero noBytes
  · intro empty
    have start : after.position = 0 := by
      have bounded := after.bounded
      rw [sameFile, empty] at bounded
      exact Nat.eq_zero_of_le_zero bounded
    have noneAhead : after.remaining = [] := by
      rw [Cursor.remaining, sameFile, empty, List.drop_nil]
    have atStart {offset : Int64} (within : Within offset cursor.contents) :
        offset.toInt = 0 := by
      obtain ⟨notNegative, inside⟩ := within
      rw [empty] at inside
      exact Int.le_antisymm inside notNegative
    exact {
      pread := fun offset count within => by
        refine ⟨(sysPread64_iff _ fd count within).mpr (.inr ?_), rfl, rfl⟩
        rw [atStart within, empty]
        rfl
      set := fun offset count within => by
        refine ⟨(sysLseek_set_iff _ fd offset).mpr ?_, ?_⟩
        · exact Int64.toInt_inj.mp (atStart within)
        · rw [sysRead_after_sysLseek serial named followsAfter, bytesFrom,
            empty, List.drop_nil, List.take_nil]
          change after.remaining.take _ = []
          rw [noneAhead, List.take_nil]
      current := by
        rw [sysLseek_ret_iff, ← position, start]
      atEnd := by
        rw [sysLseek_ret_iff, empty]
        rfl
    }

/-- The first read of `/a`, and the position after it. -/
theorem positions_agree_iff_opened :
    SharesPosition .silent
        ((descriptorCalls .silent oneFile).run
          (perform .silent oneFile (.initial ())
            (.openFile (some [47, 97]) 0 0)).2
          [.read 3 2])
        3 [1, 2, 3] 2 ↔
      [(1 : UInt8), 2, 3] = [] := by
  have returned :
      (perform .silent oneFile (.initial ())
        (.openFile (some [47, 97]) 0 0)).1.ret = (3 : Int32).toInt64 := by
    decide +kernel
  obtain ⟨file, slot, found, named, start⟩ :=
    open_follows .silent oneFile rfl returned (by decide)
  cases found
  exact positions_agree_iff .silent oneFile _ [.read 3 2] named start
    (by decide)

/-- Seeking to the end of a file of three bytes returns 0. -/
theorem lseek_ignores_size :
    ¬SharesPosition .silent
      (perform .silent oneFile (.initial ())
        (.openFile (some [47, 97]) 0 0)).2
      3 [1, 2, 3] 0 := by
  intro shares
  exact absurd shares.atEnd (by decide)

end RubyOnBareMetal.Descriptors
