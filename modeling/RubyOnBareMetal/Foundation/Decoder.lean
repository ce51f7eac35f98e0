import Mathlib.Data.List.ReduceOption
import RubyOnBareMetal.Foundation.Machine

namespace Foundation.Machine

/-!
# Machines that decode a stream on demand

A decoder is asked for one value at a time and takes as much of its stream as
it needs.  If from the encoding of a key, whatever follows, it takes exactly
that encoding, it decodes every concatenation of encodings.
-/

variable {State Symbol Value : Type}
variable (machine : Machine State Unit (Option Value))

/-- An exhausted decoder answers nothing from then on. -/
theorem responses_exhausted
    {remaining : State → List Symbol}
    (ends :
      ∀ {state},
        remaining state = [] →
        (machine.step state ()).1 = none ∧
          remaining (machine.step state ()).2 = [])
    {state : State}
    (exhausted : remaining state = [])
    (asked : Nat) :
    machine.responses state (List.replicate asked ()) =
      List.replicate asked none := by
  induction asked generalizing state with
  | zero =>
      rfl
  | succ asked inductionHypothesis =>
      obtain ⟨nothing, still⟩ := ends exhausted
      rw [List.replicate_succ, responses_cons, List.replicate_succ,
        nothing, inductionHypothesis still]

/-- A decoder of single keys decodes lists of keys, and then nothing. -/
theorem responses_decode
    {Key : Type}
    {remaining : State → List Symbol}
    {encode : Key → List Symbol}
    {value : Key → Value}
    (decodes :
      ∀ {state} key rest,
        remaining state = encode key ++ rest →
        (machine.step state ()).1 = some (value key) ∧
          remaining (machine.step state ()).2 = rest)
    (ends :
      ∀ {state},
        remaining state = [] →
        (machine.step state ()).1 = none ∧
          remaining (machine.step state ()).2 = [])
    (keys : List Key)
    {state : State}
    (stream : remaining state = keys.flatMap encode)
    (more : Nat) :
    machine.responses state (List.replicate (keys.length + more) ()) =
      keys.map (fun key => some (value key)) ++
        List.replicate more none := by
  induction keys generalizing state with
  | nil =>
      rw [List.length_nil, Nat.zero_add]
      exact machine.responses_exhausted ends stream more
  | cons key rest inductionHypothesis =>
      obtain ⟨decoded, rests⟩ := decodes key _ stream
      rw [List.length_cons, Nat.add_right_comm, List.replicate_succ,
        responses_cons, decoded, inductionHypothesis rests]
      rfl

end Foundation.Machine

namespace Foundation

/-!
## Readers

A reader takes a value from every stream that is not empty and leaves less of
it, so that a whole stream has a list of values.
-/

/-- How the next value is read from a first symbol and what follows it. -/
structure Reader (Symbol Value : Type) where
  next : Symbol → List Symbol → Value × List Symbol
  shrinks :
    ∀ first rest, (next first rest).2.length ≤ rest.length

namespace Reader

variable {Symbol Value : Type}
variable (reader : Reader Symbol Value)

/-- The values of a whole stream. -/
def values : List Symbol → List Value
  | [] => []
  | first :: rest =>
      (reader.next first rest).1 :: values (reader.next first rest).2
termination_by stream => stream.length
decreasing_by
  exact Nat.lt_succ_of_le (reader.shrinks first rest)

@[simp] theorem values_nil : reader.values [] = [] := by
  rw [values]

theorem values_cons
    (first : Symbol)
    (rest : List Symbol) :
    reader.values (first :: rest) =
      (reader.next first rest).1 ::
        reader.values (reader.next first rest).2 := by
  rw [values]

/-- Values that come before those of a stream change them. -/
theorem append_values_ne
    {before : List Value}
    (nonempty : before ≠ [])
    (stream : List Symbol) :
    before ++ reader.values stream ≠ reader.values stream := by
  intro same
  exact nonempty (List.append_left_eq_self.mp same)

/--
A machine that reads its stream with a reader answers with the values of the
stream and, once they are used up, with nothing.
-/
theorem responses_values
    {State : Type}
    {machine : Machine State Unit (Option Value)}
    {remaining : State → List Symbol}
    (reads :
      ∀ {state} first rest,
        remaining state = first :: rest →
        (machine.step state ()).1 = some (reader.next first rest).1 ∧
          remaining (machine.step state ()).2 =
            (reader.next first rest).2)
    (ends :
      ∀ {state},
        remaining state = [] →
        (machine.step state ()).1 = none ∧
          remaining (machine.step state ()).2 = [])
    (state : State)
    (asked : Nat) :
    machine.responses state (List.replicate asked ()) =
      ((reader.values (remaining state)).map some ++
        List.replicate asked none).take asked := by
  induction asked generalizing state with
  | zero =>
      rfl
  | succ asked inductionHypothesis =>
      rw [List.replicate_succ, Machine.responses_cons,
        inductionHypothesis]
      cases stream : remaining state with
      | nil =>
          obtain ⟨nothing, still⟩ := ends stream
          simp [nothing, still, List.replicate_succ]
      | cons first rest =>
          obtain ⟨read, rests⟩ := reads first rest stream
          have padded :
              asked ≤
                ((reader.values (reader.next first rest).2).map some ++
                  List.replicate asked none).length := by
            simp
          rw [read, rests, values_cons, List.map_cons, List.cons_append,
            List.take_succ_cons, List.replicate_succ', ← List.append_assoc,
            List.take_append_of_le_length padded]

/-- A stream has no more values than symbols. -/
theorem length_values_le (stream : List Symbol) :
    (reader.values stream).length ≤ stream.length := by
  induction length : stream.length using Nat.strongRecOn
    generalizing stream with
  | ind bound inductionHypothesis =>
      cases stream with
      | nil =>
          simp
      | cons first rest =>
          have shorter := reader.shrinks first rest
          rw [List.length_cons] at length
          have fewer :=
            inductionHypothesis (reader.next first rest).2.length
              (by omega) (reader.next first rest).2 rfl
          rw [values_cons, List.length_cons]
          omega

/-- Asked often enough, such a machine answers with all values. -/
theorem reduceOption_responses
    {State : Type}
    {machine : Machine State Unit (Option Value)}
    {remaining : State → List Symbol}
    (reads :
      ∀ {state} first rest,
        remaining state = first :: rest →
        (machine.step state ()).1 = some (reader.next first rest).1 ∧
          remaining (machine.step state ()).2 =
            (reader.next first rest).2)
    (ends :
      ∀ {state},
        remaining state = [] →
        (machine.step state ()).1 = none ∧
          remaining (machine.step state ()).2 = [])
    {state : State}
    {asked : Nat}
    (enough : (reader.values (remaining state)).length ≤ asked) :
    (machine.responses state (List.replicate asked ())).reduceOption =
      reader.values (remaining state) := by
  rw [reader.responses_values reads ends, List.take_append,
    List.take_of_length_le (by simpa using enough), List.take_replicate,
    List.reduceOption_append, List.reduceOption_replicate_none,
    List.append_nil]
  simp [List.reduceOption, List.filterMap_map]

/--
Two states of such a machine answer alike, however often they are asked, when
their streams have the same values.
-/
theorem responses_agree_iff
    {State : Type}
    {machine : Machine State Unit (Option Value)}
    {remaining : State → List Symbol}
    (reads :
      ∀ {state} first rest,
        remaining state = first :: rest →
        (machine.step state ()).1 = some (reader.next first rest).1 ∧
          remaining (machine.step state ()).2 =
            (reader.next first rest).2)
    (ends :
      ∀ {state},
        remaining state = [] →
        (machine.step state ()).1 = none ∧
          remaining (machine.step state ()).2 = [])
    {first second : State} :
    (∀ asked,
      machine.responses first (List.replicate asked ()) =
        machine.responses second (List.replicate asked ())) ↔
      reader.values (remaining first) =
        reader.values (remaining second) := by
  constructor
  · intro agree
    let asked :=
      (reader.values (remaining first)).length +
        (reader.values (remaining second)).length
    calc
      reader.values (remaining first) =
          (machine.responses first
            (List.replicate asked ())).reduceOption :=
        (reader.reduceOption_responses reads ends
          (Nat.le_add_right _ _)).symm
      _ = (machine.responses second
            (List.replicate asked ())).reduceOption := by
        rw [agree asked]
      _ = reader.values (remaining second) :=
        reader.reduceOption_responses reads ends (Nat.le_add_left _ _)
  · intro same asked
    rw [reader.responses_values reads ends,
      reader.responses_values reads ends, same]

end Reader

end Foundation
