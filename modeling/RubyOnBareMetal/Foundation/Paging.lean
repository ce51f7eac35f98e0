import RubyOnBareMetal.Foundation.Memory
import Mathlib.Algebra.Group.Nat.Defs

namespace Foundation.Paging

/-!
# Four-level paging

How an x86-64 processor translates a virtual address.  A table has 512
entries of eight bytes; a table of level `level` is indexed by nine bits of
the address, and what its entries lead to spans `2 ^ (12 + 9 * level)` bytes.
-/

/-- The bytes that an entry of a table of this level spans. -/
def span (level : Nat) : Nat :=
  2 ^ (12 + 9 * level)

/-- The bits of an address that index a table of this level. -/
def index (address level : Nat) : Nat :=
  address / span level % 512

/-- Bit 0 of an entry. -/
def Present (entry : Nat) : Prop :=
  entry % 2 = 1
  deriving Decidable

/-- Bit 1 of an entry. -/
def Writable (entry : Nat) : Prop :=
  entry / 2 % 2 = 1
  deriving Decidable

/-- Bit 7 of an entry, which makes it one of a large page. -/
def Large (entry : Nat) : Prop :=
  entry / 128 % 2 = 1
  deriving Decidable

/-- The address in an entry, of something that is so aligned. -/
def base (entry alignment : Nat) : Nat :=
  entry % 2 ^ 52 / alignment * alignment

/-- Where an address is found and whether it may be written. -/
structure Translation where
  physical : Nat
  writable : Bool
  deriving Repr, DecidableEq

/--
Walk from a table of level `level - 1` down to a page.  Only the two levels
above the last one have large pages; their reserved bits have to be zero.
-/
def walkFrom
    (memory : Memory)
    (address : Nat) :
    (level table : Nat) → (writable : Bool) → Option Translation
  | 0, frame, writable => some {
      physical := frame + address % span 0
      writable := writable
    }
  | level + 1, table, writable =>
      let entry := memory.load (table + 8 * index address level) 8
      let writable := writable && decide (Writable entry)
      if ¬Present entry then
        none
      else if Large entry ∧ level ≠ 0 then
        if level = 3 ∨ entry % span level / 2 ^ 13 ≠ 0 then
          none
        else
          some {
            physical := base entry (span level) + address % span level
            writable := writable
          }
      else
        walkFrom memory address level (base entry (span 0)) writable

/-- The walk that starts from `CR3`. -/
def walk (memory : Memory) (cr3 address : UInt64) : Option Translation :=
  walkFrom memory address.toNat 4 (base cr3.toNat (span 0)) true

/-- Bits 47 to 63 of an address agree. -/
def Canonical (address : UInt64) : Prop :=
  address.toNat < 2 ^ 47 ∨ 2 ^ 64 - 2 ^ 47 ≤ address.toNat
  deriving Decidable

/-! ## One level of the walk -/

section Levels

variable {memory : Memory} {address level table entry : Nat}
variable {writable : Bool}

/-- An entry that is not present ends the walk. -/
theorem walkFrom_absent
    (found : memory.load (table + 8 * index address level) 8 = entry)
    (absent : ¬Present entry) :
    walkFrom memory address (level + 1) table writable = none := by
  simp only [walkFrom, found, absent, not_false_eq_true, if_true]

/-- An entry of a table leads to that table. -/
theorem walkFrom_table
    (found : memory.load (table + 8 * index address level) 8 = entry)
    (present : Present entry)
    (small : ¬Large entry) :
    walkFrom memory address (level + 1) table writable =
      walkFrom memory address level (base entry (span 0))
        (writable && decide (Writable entry)) := by
  simp only [walkFrom, found, present, small, not_true_eq_false, false_and,
    if_false]

/-- An entry of a large page gives the translation. -/
theorem walkFrom_large
    (found : memory.load (table + 8 * index address level) 8 = entry)
    (present : Present entry)
    (large : Large entry)
    (middle : level = 1 ∨ level = 2)
    (reserved : entry % span level / 2 ^ 13 = 0) :
    walkFrom memory address (level + 1) table writable =
      some {
        physical := base entry (span level) + address % span level
        writable := writable && decide (Writable entry)
      } := by
  have notLast : level ≠ 0 := by omega
  have notFirst : ¬(level = 3 ∨ entry % span level / 2 ^ 13 ≠ 0) := by
    omega
  simp only [walkFrom, found, present, large, notLast, notFirst,
    not_true_eq_false, not_false_eq_true, ne_eq, and_self, if_true, if_false]

/--
A table whose first entry leads to a writable table, and which is empty
otherwise, translates the addresses with index zero only.
-/
theorem walkFrom_only
    {next : Nat}
    (found :
      memory.load (table + 8 * index address level) 8 =
        if index address level = 0 then next + 3 else 0)
    (aligned : next % 4096 = 0)
    (fits : next < 2 ^ 52) :
    walkFrom memory address (level + 1) table writable =
      if index address level = 0 then
        walkFrom memory address level next writable
      else
        none := by
  split
  · next zero =>
      rw [if_pos zero] at found
      have flags : Writable (next + 3) := by
        unfold Writable
        omega
      have leads : base (next + 3) (span 0) = next := by
        change (next + 3) % 2 ^ 52 / 4096 * 4096 = next
        omega
      rw [walkFrom_table found, leads, decide_eq_true flags, Bool.and_true]
      · unfold Present
        omega
      · unfold Large
        omega
  · next other =>
      rw [if_neg other] at found
      exact walkFrom_absent found (by decide)

end Levels

end Foundation.Paging
