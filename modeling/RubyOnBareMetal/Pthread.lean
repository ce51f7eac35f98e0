import RubyOnBareMetal.Foundation.Machine
import RubyOnBareMetal.Foundation.Nesting

namespace RubyOnBareMetal.Pthread

open Foundation

/-!
# Cleanup handlers

`_pthread_cleanup_push` and `_pthread_cleanup_pop` of
`compat/ruby_on_bare_metal_pthread.c`.  The record that a pair of them shares
is a variable on the caller's stack that nobody initialises; zero is the null
pointer.
-/

/-- `struct __ptcb`: a handler, its argument and the record below. -/
structure Ptcb where
  f : UInt64
  x : UInt64
  next : UInt64
  deriving Repr, DecidableEq

/-- The records by their addresses. -/
abbrev Records :=
  UInt64 → Ptcb

/-- A handler and the argument it is called with. -/
abbrev HandlerCall :=
  UInt64 × UInt64

/-- `_pthread_cleanup_push`. -/
def pthreadCleanupPush
    (records : Records)
    (_cb _f _x : UInt64) :
    Records :=
  records

/-- `_pthread_cleanup_pop`: the handlers it calls. -/
def pthreadCleanupPop
    (records : Records)
    (cb : UInt64)
    (run : Int32) :
    List HandlerCall :=
  if run ≠ 0 ∧ cb ≠ 0 ∧ (records cb).f ≠ 0 then
    [((records cb).f, (records cb).x)]
  else
    []

/-! ## Runs -/

/-- A step of a client: its record comes to be, then it makes two calls. -/
inductive Request where
  | declare (cb : UInt64) (garbage : Ptcb)
  | push (cb f x : UInt64)
  | pop (cb : UInt64) (run : Int32)
  deriving Repr, DecidableEq

/-- One step and the handlers it calls. -/
def step (records : Records) : Request → List HandlerCall × Records
  | .declare cb garbage =>
      ([], fun address => if address = cb then garbage else records address)
  | .push cb f x => ([], pthreadCleanupPush records cb f x)
  | .pop cb run => (pthreadCleanupPop records cb run, records)

/-- The two functions and the stack their clients keep records on. -/
def machine : Machine Records Request (List HandlerCall) where
  step := step
  admits _ _ := True

/-- A push and the pop that matches it. -/
structure Block where
  cb : UInt64
  garbage : Ptcb
  f : UInt64
  x : UInt64
  run : Int32
  deriving Repr, DecidableEq

namespace Block

/-- The steps before the body of a block. -/
def opening (block : Block) : List Request :=
  [.declare block.cb block.garbage, .push block.cb block.f block.x]

/-- The step after the body. -/
def closing (block : Block) : List Request :=
  [.pop block.cb block.run]

/-- The call that the pop has to make. -/
def promised (block : Block) : List HandlerCall :=
  if block.run ≠ 0 then [(block.f, block.x)] else []

/-- The record lies somewhere, and apart from those still in use. -/
def Apart (enclosing : List Block) (block : Block) : Prop :=
  block.cb ≠ 0 ∧ block.cb ∉ enclosing.map Block.cb

/-- The record happens to hold what the push was given. -/
def Lucky (_ : List Block) (block : Block) : Prop :=
  block.run ≠ 0 →
    block.f ≠ 0 ∧ block.garbage.f = block.f ∧ block.garbage.x = block.x

instance (enclosing : List Block) (block : Block) :
    Decidable (block.Apart enclosing) :=
  inferInstanceAs (Decidable (_ ∧ _))

instance (enclosing : List Block) (block : Block) :
    Decidable (block.Lucky enclosing) :=
  inferInstanceAs (Decidable (_ → _))

end Block

/-- Properly nested pairs of calls. -/
abbrev Blocks :=
  Nesting Block Empty

namespace Blocks

/-- The steps of a client. -/
def requests (blocks : Blocks) : List Request :=
  blocks.spell Block.opening Block.closing Empty.elim

/-- The calls its steps have to make: those of the pops, and no others. -/
def expected (blocks : Blocks) : List (List HandlerCall) :=
  blocks.spell (fun _ => [[], []]) (fun block => [block.promised]) Empty.elim

end Blocks

/-! ## What the calls do -/

/-- The memory once the record of a block has come to be. -/
def declared (records : Records) (block : Block) : Records :=
  fun address => if address = block.cb then block.garbage else records address

/-- A run of a block runs its body, makes one pop and goes on. -/
theorem run_block
    (records : Records)
    (block : Block)
    (body rest : Blocks) :
    machine.run records (Blocks.requests (.block block body rest)) =
      machine.run
        (machine.run (declared records block) body.requests)
        rest.requests := by
  have steps :
      Blocks.requests (.block block body rest) =
        block.opening ++ (body.requests ++ (block.closing ++ rest.requests)) :=
    rfl
  rw [steps, Machine.run_append, Machine.run_append, Machine.run_append]
  rfl

/-- And it answers with the calls of its body, of the pop and of the rest. -/
theorem responses_block
    (records : Records)
    (block : Block)
    (body rest : Blocks) :
    machine.responses records (Blocks.requests (.block block body rest)) =
      [[], []] ++
        (machine.responses (declared records block) body.requests ++
          (pthreadCleanupPop
              (machine.run (declared records block) body.requests)
              block.cb block.run ::
            machine.responses
              (machine.run (declared records block) body.requests)
              rest.requests)) := by
  have steps :
      Blocks.requests (.block block body rest) =
        block.opening ++ (body.requests ++ (block.closing ++ rest.requests)) :=
    rfl
  rw [steps, Machine.responses_append, Machine.responses_append,
    Machine.responses_append]
  rfl

/-- Blocks leave the records of the blocks around them alone. -/
theorem run_frame
    {blocks : Blocks}
    {enclosing : List Block}
    (apart :
      blocks.EachBlock (fun around block => block.Apart around) enclosing)
    {cb : UInt64}
    (inUse : cb ∈ enclosing.map Block.cb)
    (records : Records) :
    machine.run records blocks.requests cb = records cb := by
  induction blocks generalizing enclosing records with
  | done =>
      rfl
  | leaf value rest inductionHypothesis =>
      cases value
  | block block body rest bodyHypothesis restHypothesis =>
      obtain ⟨⟨-, unused⟩, bodyApart, restApart⟩ := apart
      have different : cb ≠ block.cb := by
        rintro rfl
        exact unused inUse
      have inUseInside : cb ∈ (block :: enclosing).map Block.cb :=
        List.mem_cons_of_mem _ inUse
      rw [run_block, restHypothesis restApart inUse,
        bodyHypothesis bodyApart inUseInside, declared, if_neg different]

/-- So the pop of a block finds what its record held before the push. -/
theorem record_at_pop
    {block : Block}
    {body : Blocks}
    {enclosing : List Block}
    (apart :
      body.EachBlock (fun around block => block.Apart around)
        (block :: enclosing))
    (records : Records) :
    machine.run (declared records block) body.requests block.cb =
      block.garbage := by
  rw [run_frame apart List.mem_cons_self, declared, if_pos rfl]

/-- The pop makes the call it promised exactly if the record was lucky. -/
theorem pthreadCleanupPop_eq_promised
    {records : Records}
    {enclosing : List Block}
    {block : Block}
    (apart : block.Apart enclosing)
    (holds : records block.cb = block.garbage) :
    pthreadCleanupPop records block.cb block.run = block.promised ↔
      block.Lucky enclosing := by
  rw [pthreadCleanupPop, holds, Block.promised, Block.Lucky]
  by_cases runs : block.run = 0
  · simp [runs]
  · by_cases jumps : block.garbage.f = 0
    · simp only [ne_eq, runs, apart.1, jumps, not_true_eq_false,
        not_false_eq_true, and_false, if_true, if_false, forall_const]
      refine iff_of_false (List.cons_ne_nil _ _).symm ?_
      rintro ⟨present, absent, -⟩
      exact present absent.symm
    · simp only [ne_eq, runs, apart.1, jumps, not_false_eq_true, and_self,
        if_true, List.cons.injEq, Prod.mk.injEq, and_true, forall_const]
      constructor
      · rintro ⟨sameHandler, sameArgument⟩
        exact ⟨sameHandler ▸ jumps, sameHandler, sameArgument⟩
      · rintro ⟨-, sameHandler, sameArgument⟩
        exact ⟨sameHandler, sameArgument⟩

/-- Every step is expected to be answered. -/
theorem length_expected (blocks : Blocks) :
    blocks.expected.length = blocks.requests.length := by
  unfold Blocks.expected Blocks.requests
  refine Nesting.length_spell_congr ?_ ?_ ?_ blocks
  · exact fun _ => rfl
  · exact fun _ => rfl
  · exact fun value => value.elim

/-- The answers of nested blocks, for every way to be nested in others. -/
theorem responses_eq_expected_iff
    {blocks : Blocks}
    {enclosing : List Block}
    (apart :
      blocks.EachBlock (fun around block => block.Apart around) enclosing)
    (records : Records) :
    machine.responses records blocks.requests = blocks.expected ↔
      blocks.EachBlock (fun around block => block.Lucky around) enclosing := by
  induction blocks generalizing enclosing records with
  | done =>
      exact iff_of_true rfl trivial
  | leaf value rest inductionHypothesis =>
      cases value
  | block block body rest bodyHypothesis restHypothesis =>
      obtain ⟨blockApart, bodyApart, restApart⟩ := apart
      have expected :
          Blocks.expected (.block block body rest) =
            [[], []] ++
              (Blocks.expected body ++
                (block.promised :: Blocks.expected rest)) :=
        rfl
      have sameLength :
          (machine.responses (declared records block)
            (Blocks.requests body)).length =
              (Blocks.expected body).length := by
        rw [Machine.length_responses, length_expected]
      have popped :=
        pthreadCleanupPop_eq_promised blockApart
          (record_at_pop bodyApart records)
      rw [responses_block, expected, List.append_cancel_left_eq]
      constructor
      · intro same
        obtain ⟨sameBody, samePop⟩ := List.append_inj same sameLength
        obtain ⟨sameCalls, sameRest⟩ := List.cons.inj samePop
        exact ⟨popped.mp sameCalls,
          (bodyHypothesis bodyApart _).mp sameBody,
          (restHypothesis restApart _).mp sameRest⟩
      · rintro ⟨lucky, bodyLucky, restLucky⟩
        rw [(bodyHypothesis bodyApart _).mpr bodyLucky, popped.mpr lucky,
          (restHypothesis restApart _).mpr restLucky]

/--
Every pop with a nonzero flag calls exactly the handler and the argument of
its push, and the other steps call nothing, if and only if each record popped
so held that handler and that argument before the push.
-/
theorem cleanup_handlers_called_iff
    (records : Records)
    {blocks : Blocks}
    (apart :
      blocks.EachBlock (fun around block => block.Apart around) []) :
    machine.responses records blocks.requests = blocks.expected ↔
      blocks.EachBlock (fun around block => block.Lucky around) [] :=
  responses_eq_expected_iff apart records

/-- A block around another one, whose records held what was pushed. -/
def nestedBlocks : Blocks :=
  .block ⟨0x7000, ⟨0x401000, 1, 0⟩, 0x401000, 1, 1⟩
    (.block ⟨0x6000, ⟨0x402000, 2, 0x7000⟩, 0x402000, 2, 1⟩ .done .done)
    .done

theorem cleanup_handlers_called_iff_nested :
    machine.responses (fun _ => ⟨0, 0, 0⟩) nestedBlocks.requests =
        nestedBlocks.expected ↔
      nestedBlocks.EachBlock (fun around block => block.Lucky around) [] :=
  cleanup_handlers_called_iff _ (by decide)

/-- A handler is pushed over a record that holds another address. -/
def strayBlocks : Blocks :=
  .block ⟨0x7000, ⟨0xdeadbeef, 0x1234, 0⟩, 0x401000, 1, 1⟩ .done .done

/-- The pop then jumps to that address, and the handler is never called. -/
theorem cleanup_pop_calls_garbage :
    strayBlocks.EachBlock (fun around block => block.Apart around) [] ∧
      machine.responses (fun _ => ⟨0, 0, 0⟩) strayBlocks.requests =
        [[], [], [(0xdeadbeef, 0x1234)]] ∧
      strayBlocks.expected = [[], [], [(0x401000, 1)]] ∧
      machine.responses (fun _ => ⟨0, 0, 0⟩) strayBlocks.requests ≠
        strayBlocks.expected := by
  decide

end RubyOnBareMetal.Pthread
