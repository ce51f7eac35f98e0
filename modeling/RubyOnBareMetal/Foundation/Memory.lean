import Mathlib.Data.Nat.ModEq
import Mathlib.Data.Set.Function

namespace Foundation

/-!
# Byte memory

A memory maps every address to a byte.  The operations are the ones C code
uses on raw storage: filling and copying a range of bytes, and loading and
storing little-endian words.  Each operation comes with the value it leaves
inside its range and with the statement that nothing outside it changes.
-/

/-- A byte at every address. -/
abbrev Memory := Nat → UInt8

namespace Memory

/-- The memory in which every byte is zero. -/
def zero : Memory :=
  fun _ => 0

/-- Two memories hold the same bytes at `start, ..., start + length - 1`. -/
def SameOn (first second : Memory) (start length : Nat) : Prop :=
  ∀ address,
    start ≤ address →
    address < start + length →
    first address = second address

/-- The bytes at `start, ..., start + length - 1`. -/
def slice (memory : Memory) (start length : Nat) : List UInt8 :=
  (List.range length).map fun index => memory (start + index)

/-- Store one byte. -/
def write (memory : Memory) (address : Nat) (value : UInt8) : Memory :=
  fun query => if query = address then value else memory query

/-- `memset`: every byte of the range becomes `value`. -/
def fill (memory : Memory) (start length : Nat) (value : UInt8) : Memory :=
  fun query =>
    if start ≤ query ∧ query < start + length then value else memory query

/-- `memcpy`: the target range receives the bytes of the source range. -/
def copy (memory : Memory) (target source length : Nat) : Memory :=
  fun query =>
    if target ≤ query ∧ query < target + length then
      memory (source + (query - target))
    else
      memory query

/-- Store a list of bytes, one after the other. -/
def writeAll (memory : Memory) (start : Nat) : List UInt8 → Memory
  | [] => memory
  | byte :: rest => writeAll (memory.write start byte) (start + 1) rest

/-- Store the low `width` bytes of `value`, least significant byte first. -/
def store (memory : Memory) (start width value : Nat) : Memory :=
  fun query =>
    if start ≤ query ∧ query < start + width then
      (value / 256 ^ (query - start)).toUInt8
    else
      memory query

/-- Load `width` bytes, least significant byte first. -/
def load (memory : Memory) (start : Nat) : Nat → Nat
  | 0 => 0
  | width + 1 =>
      (memory start).toNat + 256 * load memory (start + 1) width

/-- The bytes of a C string, of which at most `bound` are looked at. -/
def cString (memory : Memory) (start : Nat) : Nat → List UInt8
  | 0 => []
  | bound + 1 =>
      if memory start = 0 then
        []
      else
        memory start :: cString memory (start + 1) bound

/-! ## Filling, copying and writing -/

section Frame

variable (memory : Memory)

theorem fill_inside
    {start length address : Nat}
    (value : UInt8)
    (low : start ≤ address)
    (high : address < start + length) :
    memory.fill start length value address = value := by
  simp [fill, low, high]

theorem fill_outside
    {start length address : Nat}
    (value : UInt8)
    (outside : address < start ∨ start + length ≤ address) :
    memory.fill start length value address = memory address := by
  have notInside : ¬(start ≤ address ∧ address < start + length) := by
    omega
  simp [fill, notInside]

theorem copy_inside
    {target source length index : Nat}
    (inside : index < length) :
    memory.copy target source length (target + index) =
      memory (source + index) := by
  simp [copy, inside]

theorem copy_outside
    {target length address : Nat}
    (source : Nat)
    (outside : address < target ∨ target + length ≤ address) :
    memory.copy target source length address = memory address := by
  have notInside : ¬(target ≤ address ∧ address < target + length) := by
    omega
  simp [copy, notInside]

/-- Copying no byte changes nothing. -/
theorem copy_zero (target source : Nat) :
    memory.copy target source 0 = memory := by
  funext query
  exact memory.copy_outside source (by omega)

theorem store_outside
    {start width address : Nat}
    (value : Nat)
    (outside : address < start ∨ start + width ≤ address) :
    memory.store start width value address = memory address := by
  have notInside : ¬(start ≤ address ∧ address < start + width) := by
    omega
  simp [store, notInside]

@[simp] theorem write_same (address : Nat) (value : UInt8) :
    memory.write address value address = value := by
  simp [write]

theorem write_other
    {address query : Nat}
    (value : UInt8)
    (different : query ≠ address) :
    memory.write address value query = memory query := by
  simp [write, different]

end Frame

/-! ## Loading and storing words -/

/-- A load depends only on the bytes it reads. -/
theorem load_congr
    {first second : Memory}
    {start width : Nat}
    (same : SameOn first second start width) :
    first.load start width = second.load start width := by
  induction width generalizing start with
  | zero =>
      rfl
  | succ width inductionHypothesis =>
      have head : first start = second start :=
        same start (by omega) (by omega)
      have tail :
          first.load (start + 1) width =
            second.load (start + 1) width := by
        apply inductionHypothesis
        intro address low high
        exact same address (by omega) (by omega)
      simp only [load, head, tail]

/-- Consecutive base-256 digits are loaded back as the number they spell. -/
theorem load_digits
    {memory : Memory}
    {start width value : Nat}
    (digits :
      ∀ index,
        index < width →
        memory (start + index) = (value / 256 ^ index).toUInt8) :
    memory.load start width = value % 256 ^ width := by
  induction width generalizing start value with
  | zero =>
      simp [load, Nat.mod_one]
  | succ width inductionHypothesis =>
      have head : (memory start).toNat = value % 256 := by
        have first := digits 0 (by omega)
        simp only [Nat.add_zero, pow_zero, Nat.div_one] at first
        rw [first]
        rfl
      have tail :
          memory.load (start + 1) width =
            (value / 256) % 256 ^ width := by
        apply inductionHypothesis
        intro index inside
        have digit := digits (index + 1) (by omega)
        rw [Nat.pow_succ', ← Nat.div_div_eq_div_mul] at digit
        rw [show start + 1 + index = start + (index + 1) by omega]
        exact digit
      rw [load, head, tail, Nat.pow_succ', Nat.mod_mul]

/-- A stored word is loaded back, reduced to its width. -/
theorem load_store
    (memory : Memory)
    (start width value : Nat) :
    (memory.store start width value).load start width =
      value % 256 ^ width := by
  apply load_digits
  intro index inside
  simp [store, inside]

/-- A store leaves the loads of ranges it does not touch unchanged. -/
theorem load_store_of_apart
    (memory : Memory)
    {start width other otherWidth : Nat}
    (value : Nat)
    (apart : other + otherWidth ≤ start ∨ start + width ≤ other) :
    (memory.store start width value).load other otherWidth =
      memory.load other otherWidth := by
  apply load_congr
  intro address low high
  exact memory.store_outside value (by omega)

/-- A long word is made of two shorter ones. -/
theorem load_add
    (memory : Memory)
    (start low high : Nat) :
    memory.load start (low + high) =
      memory.load start low + 256 ^ low * memory.load (start + low) high := by
  induction low generalizing start with
  | zero =>
      simp [load]
  | succ low inductionHypothesis =>
      have next := inductionHypothesis (start + 1)
      rw [Nat.add_right_comm low 1 high, load, load, next,
        Nat.add_right_comm start 1 low, Nat.pow_succ', Nat.mul_add,
        Nat.mul_assoc, Nat.add_assoc, Nat.add_assoc]

/-- Zero bytes spell zero. -/
theorem load_zero
    {memory : Memory}
    {start width : Nat}
    (zero : ∀ address,
      start ≤ address → address < start + width → memory address = 0) :
    memory.load start width = 0 := by
  have digits :
      ∀ index, index < width →
        memory (start + index) = (0 / 256 ^ index).toUInt8 := by
    intro index inside
    rw [zero (start + index) (by omega) (by omega), Nat.zero_div]
    rfl
  rw [load_digits digits, Nat.zero_mod]

/-! ## Slices -/

@[simp] theorem length_slice (memory : Memory) (start length : Nat) :
    (memory.slice start length).length = length := by
  simp [slice]

@[simp] theorem getElem_slice
    (memory : Memory)
    (start length index : Nat)
    (inside : index < (memory.slice start length).length) :
    (memory.slice start length)[index] = memory (start + index) := by
  simp [slice]

/-- Equal bytes on a range are equal slices. -/
theorem slice_congr
    {first second : Memory}
    {start length : Nat}
    (same : SameOn first second start length) :
    first.slice start length = second.slice start length := by
  apply List.ext_getElem
  · simp
  · intro index inside _
    have bound : index < length := by simpa using inside
    simpa using same (start + index) (by omega) (by omega)

/-- Writing one byte of a range updates one entry of its slice. -/
theorem slice_write
    (memory : Memory)
    {start length index : Nat}
    (value : UInt8) :
    (memory.write (start + index) value).slice start length =
      (memory.slice start length).set index value := by
  apply List.ext_getElem
  · simp
  · intro position inside _
    by_cases same : index = position
    · subst position
      simp
    · have different : start + position ≠ start + index := by omega
      simp [memory.write_other value different, same]

/-- A slice of equal bytes is a replicated list. -/
theorem slice_eq_replicate
    {memory : Memory}
    {start length : Nat}
    {value : UInt8}
    (constant :
      ∀ index, index < length → memory (start + index) = value) :
    memory.slice start length = List.replicate length value := by
  apply List.ext_getElem
  · simp
  · intro index inside _
    have bound : index < length := by simpa using inside
    simpa using constant index bound

/-- The first bytes of a slice are the slice of the shorter range. -/
theorem take_slice
    (memory : Memory)
    {start length count : Nat}
    (short : count ≤ length) :
    (memory.slice start length).take count =
      memory.slice start count := by
  simp [slice, ← List.map_take, List.take_range, Nat.min_eq_left short]

/-- A slice is its first byte and the slice behind it. -/
theorem slice_succ (memory : Memory) (start length : Nat) :
    memory.slice start (length + 1) =
      memory start :: memory.slice (start + 1) length := by
  simp only [slice, List.range_succ_eq_map, List.map_cons, List.map_map,
    Nat.add_zero]
  refine congrArg _ (List.map_congr_left fun index _ => ?_)
  exact congrArg memory (by simp only [Nat.succ_eq_add_one]; omega)

/-- Storing a list changes no other byte. -/
theorem writeAll_outside
    (memory : Memory)
    {start address : Nat}
    {bytes : List UInt8}
    (outside : address < start ∨ start + bytes.length ≤ address) :
    memory.writeAll start bytes address = memory address := by
  induction bytes generalizing memory start with
  | nil =>
      rfl
  | cons byte rest inductionHypothesis =>
      rw [List.length_cons] at outside
      rw [writeAll, inductionHypothesis _ (by omega)]
      exact memory.write_other byte (by omega)

/-- A stored list is found where it was stored. -/
theorem slice_writeAll
    (memory : Memory)
    (start : Nat)
    (bytes : List UInt8) :
    (memory.writeAll start bytes).slice start bytes.length = bytes := by
  induction bytes generalizing memory start with
  | nil =>
      rfl
  | cons byte rest inductionHypothesis =>
      rw [List.length_cons, slice_succ, writeAll, inductionHypothesis,
        writeAll_outside _ (.inl (Nat.lt_succ_self start)), write_same]

end Memory

end Foundation
