import RubyOnBareMetal.Foundation.ArrayStore
import RubyOnBareMetal.Malloc.Invariant

namespace RubyOnBareMetal.Malloc

open Foundation

/-!
# The allocator is a store of independent arrays

`StoreStep` says what an allocator is for, with no heap behind it: every block
in use is an array of its own.  The raw heap, in which headers and payloads
share one memory, refines it: reading off the payloads of the live blocks
turns every run of the allocator into a run of the store.
-/

/-- The arrays of the blocks in use. -/
abbrev Store := ArrayStore UInt64 UInt8

/-- What an allocator may answer, as changes to independent arrays. -/
inductive StoreStep : Specification Store Request Response where
  | refused
      {store : Store} {request : Request} :
      (request.allocation?.isSome ∨
        (∃ nmemb size, request = .calloc nmemb size) ∨
        ∃ pointer size,
          request = .realloc (some pointer) size ∧ size ≠ 0) →
      StoreStep store request (.pointer none) store
  | placed
      {store : Store} {request : Request}
      {pointer : UInt64} {bytes : List UInt8} :
      request.allocation?.isSome →
      store pointer = none →
      request.asked ≤ bytes.length →
      StoreStep store request (.pointer (some pointer))
        (store.insert pointer bytes)
  | cleared
      {store : Store} {nmemb size pointer : UInt64} {length : Nat} :
      store pointer = none →
      nmemb.toNat * size.toNat ≤ length →
      StoreStep store (.calloc nmemb size) (.pointer (some pointer))
        (store.insert pointer (List.replicate length 0))
  | resized
      {store : Store} {pointer target size : UInt64}
      {old new : List UInt8} :
      size ≠ 0 →
      store pointer = some old →
      target = pointer ∨ store target = none →
      size.toNat ≤ new.length →
      new.take (min size.toNat old.length) =
        old.take (min size.toNat old.length) →
      StoreStep store (.realloc (some pointer) size)
        (.pointer (some target))
        ((store.drop (some pointer)).insert target new)
  | dropped
      {store : Store} {pointer : UInt64} :
      StoreStep store (.realloc (some pointer) 0) (.pointer none)
        (store.drop (some pointer))
  | freed
      {store : Store} {ptr : Option UInt64} :
      StoreStep store (.free ptr) .done (store.drop ptr)
  | written
      {store : Store} {pointer : UInt64} {index : Nat} {value : UInt8}
      {bytes : List UInt8} :
      store pointer = some bytes →
      index < bytes.length →
      StoreStep store (.write pointer index value) .done
        (store.insert pointer (bytes.set index value))
  | observed
      {store : Store} {pointer : UInt64} {index : Nat}
      {bytes : List UInt8} :
      store pointer = some bytes →
      (inside : index < bytes.length) →
      StoreStep store (.read pointer index) (.byte bytes[index]) store

namespace Session

/-- The payload of a block. -/
def contents (session : Session) (pointer : UInt64) : List UInt8 :=
  session.allocator.heap.slice pointer.toNat (session.usable pointer)

/-- Read the arrays of the live blocks off the heap. -/
def storeOf (session : Session) : Store :=
  fun pointer =>
    if pointer ∈ session.live then
      some (session.contents pointer)
    else
      none

theorem storeOf_live
    {session : Session}
    {pointer : UInt64}
    (alive : pointer ∈ session.live) :
    session.storeOf pointer = some (session.contents pointer) := by
  simp [storeOf, alive]

theorem storeOf_dead
    {session : Session}
    {pointer : UInt64}
    (dead : pointer ∉ session.live) :
    session.storeOf pointer = none := by
  simp [storeOf, dead]

@[simp] theorem length_contents
    (session : Session)
    (pointer : UInt64) :
    (session.contents pointer).length = session.usable pointer := by
  simp [contents]

/-- The contents of a block depend on its header and its payload. -/
theorem contents_congr
    {first second : Session}
    {pointer : UInt64}
    (hdrs : second.hdr pointer = first.hdr pointer)
    (payload :
      Memory.SameOn second.allocator.heap first.allocator.heap
        pointer.toNat (first.usable pointer)) :
    second.contents pointer = first.contents pointer := by
  unfold contents
  rw [usable_congr hdrs]
  exact Memory.slice_congr payload

/--
A step that keeps the contents of every live block is seen in the store only
at the block it hands out and at the block it takes back.
-/
theorem storeOf_step_apply
    {before after : Session}
    {released : Option UInt64}
    (new : Option UInt64)
    (liveShape :
      after.live =
        new.toList ++
          before.live.filter fun pointer => released ≠ some pointer)
    (kept :
      ∀ pointer ∈ before.live,
        after.contents pointer = before.contents pointer)
    {query : UInt64}
    (notNew : new ≠ some query) :
    after.storeOf query = before.storeOf.drop released query := by
  have sameLive :
      query ∈ after.live ↔
        query ∈ before.live ∧ released ≠ some query := by
    rw [liveShape]
    simp [notNew]
  by_cases taken : released = some query
  · have dead : query ∉ after.live := by
      intro alive
      exact (sameLive.mp alive).2 taken
    rw [storeOf_dead dead]
    simp [ArrayStore.drop, taken]
  · rw [ArrayStore.drop_other _ taken]
    by_cases alive : query ∈ before.live
    · rw [storeOf_live (sameLive.mpr ⟨alive, taken⟩),
        storeOf_live alive, kept query alive]
    · have dead : query ∉ after.live := by
        intro later
        exact alive (sameLive.mp later).1
      rw [storeOf_dead dead, storeOf_dead alive]

/-- A step that hands out nothing only takes a block out of the store. -/
theorem storeOf_withdraw
    {before after : Session}
    {released : Option UInt64}
    (liveShape :
      after.live =
        before.live.filter fun pointer => released ≠ some pointer)
    (kept :
      ∀ pointer ∈ before.live,
        after.contents pointer = before.contents pointer) :
    after.storeOf = before.storeOf.drop released := by
  funext query
  exact storeOf_step_apply none liveShape kept (by simp)

/-- A step that hands out a block puts its payload into the store. -/
theorem storeOf_hand_out
    {before after : Session}
    {pointer : UInt64}
    {released : Option UInt64}
    (liveShape :
      after.live =
        pointer ::
          before.live.filter fun query => released ≠ some query)
    (kept :
      ∀ query ∈ before.live,
        after.contents query = before.contents query) :
    after.storeOf =
      (before.storeOf.drop released).insert pointer
        (after.contents pointer) := by
  funext query
  by_cases same : query = pointer
  · subst query
    have alive : pointer ∈ after.live := by
      rw [liveShape]
      exact List.mem_cons_self
    rw [storeOf_live alive, ArrayStore.insert_same]
  · rw [ArrayStore.insert_other _ _ same]
    exact storeOf_step_apply (some pointer) liveShape kept
      (by simpa [eq_comm] using same)

end Session

/-- Placing a block above all others keeps the contents of every block. -/
theorem Sound.contents_placed
    {session after : Session}
    (sound : Sound session)
    {pointer usable : UInt64}
    (grown : Extends session.allocator after.allocator pointer usable)
    {query : UInt64}
    (member : query ∈ session.blocks) :
    after.contents query = session.contents query := by
  have top := sound.top member
  have room := sound.room member
  apply Session.contents_congr
  · apply Session.hdr_congr room
    intro address low high
    exact grown.below address (by omega)
  · intro address low high
    exact grown.below address (by omega)

/-- A placed block has a pointer that no live block has. -/
theorem Sound.dead_placed
    {session : Session}
    (sound : Sound session)
    {after : Allocator}
    {pointer usable : UInt64}
    (grown : Extends session.allocator after pointer usable) :
    pointer ∉ session.live := by
  intro alive
  have top := sound.top (sound.live alive)
  have above := grown.above
  omega

/-- A write inside one block is not seen in any other. -/
theorem Sound.contents_write_other
    {session : Session}
    (sound : Sound session)
    {owner query : UInt64}
    {index : Nat}
    {value : UInt8}
    (ownerMember : owner ∈ session.blocks)
    (member : query ∈ session.blocks)
    (different : query ≠ owner)
    (inside : index < session.usable owner) :
    (session.step (.write owner index value)).2.contents query =
      session.contents query := by
  have apart := sound.apart ownerMember member (Ne.symm different)
  have room := sound.room member
  apply Session.contents_congr
  · apply Session.hdr_congr room
    intro address low high
    exact Memory.write_other _ _ (by omega)
  · intro address low high
    exact Memory.write_other _ _ (by omega)

/-- A write inside a block sets one entry of its array. -/
theorem Sound.contents_write_same
    {session : Session}
    (sound : Sound session)
    {owner : UInt64}
    {index : Nat}
    {value : UInt8}
    (member : owner ∈ session.blocks) :
    (session.step (.write owner index value)).2.contents owner =
      (session.contents owner).set index value := by
  have room := sound.room member
  have hdrs :
      (session.step (.write owner index value)).2.hdr owner =
        session.hdr owner := by
    apply Session.hdr_congr room
    intro address low high
    exact Memory.write_other _ _ (by omega)
  unfold Session.contents
  rw [Session.usable_congr hdrs]
  exact Memory.slice_write _ _

namespace Session

/-- A refused call leaves the store as it was. -/
theorem storeOf_refused
    (session : Session)
    (request : Request)
    (taken : released request (.pointer none) = none) :
    (session.settle request (none, session.allocator)).2.storeOf =
      session.storeOf := by
  have shape :
      (session.settle request (none, session.allocator)).2.storeOf =
        session.storeOf.drop (released request (.pointer none)) :=
    storeOf_withdraw rfl (fun _ _ => rfl)
  simpa [taken] using shape

/-- A placed block appears in the store and a reallocated one leaves it. -/
theorem storeOf_placed
    {session : Session}
    {request : Request}
    {after : Allocator}
    {pointer usable : UInt64}
    (sound : Sound session)
    (grown : Extends session.allocator after pointer usable) :
    (session.settle request (some pointer, after)).2.storeOf =
      (session.storeOf.drop
        (released request (.pointer (some pointer)))).insert pointer
          ((session.settle request (some pointer, after)).2.contents
            pointer) :=
  storeOf_hand_out rfl fun _ alive =>
    sound.contents_placed grown (sound.live alive)

/-- The usable size of a block that was just placed. -/
theorem usable_placed
    {session : Session}
    {request : Request}
    {after : Allocator}
    {pointer usable : UInt64}
    (grown : Extends session.allocator after pointer usable) :
    (session.settle request (some pointer, after)).2.usable pointer =
      usable.toNat :=
  usable_of_hdr grown.hdr

/-- A plain allocation is a step of the store. -/
theorem allocation_simulates
    {session : Session}
    {request : Request}
    {size alignment : UInt64}
    (sound : Sound session)
    (small : request.Small)
    (shape : request.allocation? = some (size, alignment)) :
    StoreStep session.storeOf request (session.step request).1
      (session.step request).2.storeOf := by
  have outcome := allocation_outcome sound small shape
  have plain : request.allocation?.isSome := by simp [shape]
  have nothing :
      ∀ result, released request (.pointer result) = none := by
    intro result
    cases request with
    | realloc ptr n =>
        cases ptr <;> cases shape
        exact ite_self none
    | _ =>
        cases shape <;> rfl
  rw [session.step_of_allocation shape]
  generalize bumpAlloc session.allocator size alignment = result
    at outcome
  cases outcome with
  | refused =>
      rw [storeOf_refused session request (nothing none)]
      exact .refused (.inl plain)
  | placed grown large payload =>
      rw [storeOf_placed sound grown, nothing, ArrayStore.drop_none]
      refine .placed plain (storeOf_dead (sound.dead_placed grown)) ?_
      rw [length_contents, usable_placed grown]
      exact large

/--
`calloc` is a step of the store.  The bytes it does not clear itself lie above
`heap_used`, where nothing has been written yet.
-/
theorem calloc_simulates
    {session : Session}
    {nmemb size : UInt64}
    (sound : Sound session)
    (small : nmemb.toNat * size.toNat < 2 ^ 63) :
    StoreStep session.storeOf (.calloc nmemb size)
      (session.step (.calloc nmemb size)).1
      (session.step (.calloc nmemb size)).2.storeOf := by
  change StoreStep _ _
    (session.settle (.calloc nmemb size)
      (calloc session.allocator nmemb size)).1
    (session.settle (.calloc nmemb size)
      (calloc session.allocator nmemb size)).2.storeOf
  obtain shape |
      ⟨pointer, usable, after, shape, grown, large, zeroed, untouched⟩ :=
    calloc_cases sound.bounded small
  · rw [shape, storeOf_refused session _ rfl]
    exact .refused (.inr (.inl ⟨nmemb, size, rfl⟩))
  · have zeroes :
        (session.settle (.calloc nmemb size)
            (some pointer, after)).2.contents pointer =
          List.replicate usable.toNat 0 := by
      unfold contents
      rw [usable_placed grown]
      apply Memory.slice_eq_replicate
      intro index inside
      have above := grown.above
      by_cases early : index < nmemb.toNat * size.toNat
      · exact zeroed _ (by omega) (by omega)
      · exact (untouched _ (by omega)).trans
          (sound.blank (by omega))
    rw [shape, storeOf_placed sound grown, zeroes]
    change StoreStep _ _ _
      (ArrayStore.insert (session.storeOf.drop none) _ _)
    rw [ArrayStore.drop_none]
    exact .cleared (storeOf_dead (sound.dead_placed grown)) large

/-- `realloc` to a positive size releases its argument if it succeeds. -/
theorem released_realloc
    {pointer size : UInt64}
    (positive : size ≠ 0)
    (result : Option UInt64) :
    released (.realloc (some pointer) size) (.pointer result) =
      if result.isSome then some pointer else none := by
  simp [released, positive]

/-- A block that `realloc` keeps is handed out again with its contents. -/
theorem storeOf_kept
    (session : Session)
    {pointer size : UInt64}
    (positive : size ≠ 0) :
    (session.settle (.realloc (some pointer) size)
        (some pointer, session.allocator)).2.storeOf =
      (session.storeOf.drop (some pointer)).insert pointer
        (session.contents pointer) := by
  have liveShape :
      (session.settle (.realloc (some pointer) size)
          (some pointer, session.allocator)).2.live =
        pointer ::
          session.live.filter fun query =>
            some pointer ≠ some query := by
    simp [settle, granted, released_realloc positive]
  exact storeOf_hand_out liveShape (fun _ _ => rfl)

/-- A block that `realloc` moves starts with the whole old payload. -/
theorem take_contents_moved
    {session : Session}
    {request : Request}
    {after : Allocator}
    {pointer target usable : UInt64}
    (grown : Extends session.allocator after target usable)
    (larger : session.usable pointer ≤ usable.toNat)
    (copied :
      ∀ index,
        index < session.usable pointer →
        after.heap (target.toNat + index) =
          session.allocator.heap (pointer.toNat + index)) :
    ((session.settle request (some target, after)).2.contents
        target).take (session.usable pointer) =
      session.contents pointer := by
  unfold contents
  rw [usable_placed grown, Memory.take_slice _ larger]
  apply List.ext_getElem
  · simp
  · intro index first _
    have bound : index < session.usable pointer := by
      simpa using first
    simp only [Memory.getElem_slice]
    exact copied index bound

/-- `realloc` of a live block is a step of the store. -/
theorem realloc_simulates
    {session : Session}
    {pointer size : UInt64}
    (sound : Sound session)
    (alive : pointer ∈ session.live)
    (small : size.toNat < 2 ^ 63) :
    StoreStep session.storeOf (.realloc (some pointer) size)
      (session.step (.realloc (some pointer) size)).1
      (session.step (.realloc (some pointer) size)).2.storeOf := by
  have member := sound.live alive
  change StoreStep _ _
    (session.settle (.realloc (some pointer) size)
      (realloc session.allocator (some pointer) size)).1
    (session.settle (.realloc (some pointer) size)
      (realloc session.allocator (some pointer) size)).2.storeOf
  by_cases zero : size = 0
  · subst size
    have shape :
        (session.settle (.realloc (some pointer) 0)
            (none, session.allocator)).2.storeOf =
          session.storeOf.drop (some pointer) :=
      storeOf_withdraw rfl (fun _ _ => rfl)
    change StoreStep _ _ (.pointer none)
      (session.settle (.realloc (some pointer) 0)
        (none, session.allocator)).2.storeOf
    rw [shape]
    exact .dropped
  · obtain ⟨shape, enough⟩ | shape |
        ⟨target, usable, after, shape, grown, large, larger, copied, -⟩ :=
      realloc_cases sound.bounded zero small (sound.top member)
    · rw [shape, session.storeOf_kept zero]
      refine .resized zero (storeOf_live alive) (.inl rfl) ?_ rfl
      rw [length_contents]
      exact UInt64.le_iff_toNat_le.mp enough
    · rw [shape,
        storeOf_refused session _ (released_realloc zero none)]
      exact .refused (.inr (.inr ⟨pointer, size, rfl, zero⟩))
    · rw [shape, storeOf_placed sound grown, released_realloc zero]
      refine .resized zero (storeOf_live alive)
        (.inr (storeOf_dead (sound.dead_placed grown))) ?_ ?_
      · rw [length_contents, usable_placed grown]
        exact large
      · have shorter : session.usable pointer < size.toNat := larger
        have whole := length_contents session pointer
        rw [whole, Nat.min_eq_right (Nat.le_of_lt shorter),
          take_contents_moved grown (by omega) copied, ← whole,
          List.take_length]

/-- A write sets one entry of one array of the store. -/
theorem storeOf_write
    {session : Session}
    {owner : UInt64}
    {index : Nat}
    (sound : Sound session)
    (alive : owner ∈ session.live)
    (inside : index < session.usable owner)
    (value : UInt8) :
    (session.step (.write owner index value)).2.storeOf =
      session.storeOf.insert owner
        ((session.contents owner).set index value) := by
  have member := sound.live alive
  have sameLive :
      (session.step (.write owner index value)).2.live =
        session.live := by
    simp [step, call, granted, released]
  funext query
  by_cases same : query = owner
  · subst query
    rw [storeOf_live (by rwa [sameLive]),
      sound.contents_write_same member, ArrayStore.insert_same]
  · rw [ArrayStore.insert_other _ _ same]
    by_cases queryAlive : query ∈ session.live
    · rw [storeOf_live (by rwa [sameLive]), storeOf_live queryAlive,
        sound.contents_write_other member (sound.live queryAlive)
          same inside]
    · rw [storeOf_dead (by rwa [sameLive]), storeOf_dead queryAlive]

/-- Every request of clients that use live blocks is a step of the store. -/
theorem step_simulates
    {session : Session}
    {request : Request}
    (sound : Sound session)
    (admitted : liveBlockClients.admits session request) :
    StoreStep session.storeOf request (session.step request).1
      (session.step request).2.storeOf := by
  obtain ⟨small, names⟩ := admitted
  cases request with
  | malloc | memalign | alignedAlloc | posixMemalign | expandHeap =>
      exact allocation_simulates sound small rfl
  | calloc nmemb size =>
      exact calloc_simulates sound small
  | realloc ptr size =>
      cases ptr with
      | none =>
          exact allocation_simulates sound small rfl
      | some pointer =>
          exact realloc_simulates sound (names pointer rfl) small
  | free ptr =>
      have shape :
          (session.step (.free ptr)).2.storeOf =
            session.storeOf.drop ptr :=
        storeOf_withdraw rfl (fun _ _ => rfl)
      rw [shape]
      exact .freed
  | write owner index value =>
      obtain ⟨alive, inside⟩ := names
      rw [storeOf_write sound alive inside]
      exact .written (storeOf_live alive) (by simpa using inside)
  | read pointer index =>
      obtain ⟨alive, inside⟩ := names
      have shape :
          (session.step (.read pointer index)).2.storeOf =
            session.storeOf := by
        have dropped :
            (session.step (.read pointer index)).2.storeOf =
              session.storeOf.drop none :=
          storeOf_withdraw rfl (fun _ _ => rfl)
        simpa using dropped
      have bound : index < (session.contents pointer).length := by
        simpa using inside
      have value :
          (session.step (.read pointer index)).1 =
            .byte (session.contents pointer)[index] := by
        simp [step, call, contents]
      rw [shape, value]
      exact .observed (storeOf_live alive) bound

end Session

/-! ## Runs -/

/-- A live block is a block, so the stricter clients are clients. -/
theorem anyBlock_of_liveBlock
    {session : Session}
    {request : Request}
    (sound : Sound session)
    (admitted : liveBlockClients.admits session request) :
    anyBlockClients.admits session request := by
  obtain ⟨small, names⟩ := admitted
  refine ⟨small, ?_⟩
  cases request with
  | realloc ptr size =>
      exact fun pointer named => sound.live (names pointer named)
  | write pointer index value =>
      exact ⟨sound.live names.1, names.2⟩
  | read pointer index =>
      exact ⟨sound.live names.1, names.2⟩
  | _ =>
      trivial

/-- A request of clients that use live blocks keeps the invariant. -/
theorem sound_liveBlock_step
    {session : Session}
    {request : Request}
    (sound : Sound session)
    (admitted : liveBlockClients.admits session request) :
    Sound (liveBlockClients.step session request).2 :=
  sound_step sound (anyBlock_of_liveBlock sound admitted)

/-- Every run of clients that use live blocks is sound. -/
theorem sound_liveBlock_run
    {requests : List Request}
    (admissible :
      liveBlockClients.Admissible Session.initial requests) :
    Sound (liveBlockClients.run Session.initial requests) :=
  liveBlockClients.run_invariant sound_liveBlock_step
    sound_initial admissible

/-- A byte of a block changes only when the client writes to it. -/
theorem Evolution.byte_kept
    {before : Session}
    {request : Request}
    {outcome : Response × Session}
    (sound : Sound before)
    (evolution : Evolution before request outcome)
    {pointer : UInt64}
    {index : Nat}
    (member : pointer ∈ before.blocks)
    (inside : index < before.usable pointer)
    (untouched : ∀ value, request ≠ .write pointer index value) :
    outcome.2.allocator.heap (pointer.toNat + index) =
      before.allocator.heap (pointer.toNat + index) := by
  cases evolution with
  | still =>
      rfl
  | kept =>
      rfl
  | placed grown =>
      have top := sound.top member
      exact grown.below _ (by omega)
  | @written owner position value live ownerMember positionInside =>
      apply Memory.write_other
      by_cases same : owner = pointer
      · subst owner
        have different : position ≠ index := by
          rintro rfl
          exact untouched value rfl
        omega
      · have apart := sound.apart ownerMember member same
        omega

/-- Over a run without writes to it, a byte of a block stays the same. -/
theorem byte_kept_run
    {session : Session}
    {requests : List Request}
    (sound : Sound session)
    (admissible : liveBlockClients.Admissible session requests)
    {pointer : UInt64}
    {index : Nat}
    (member : pointer ∈ session.blocks)
    (inside : index < session.usable pointer)
    (untouched :
      ∀ value, Request.write pointer index value ∉ requests) :
    (liveBlockClients.run session requests).allocator.heap
        (pointer.toNat + index) =
      session.allocator.heap (pointer.toNat + index) := by
  induction requests generalizing session with
  | nil =>
      rfl
  | cons request rest inductionHypothesis =>
      obtain ⟨admitted, later⟩ := admissible
      have evolution :=
        Session.step_evolution sound
          (anyBlock_of_liveBlock sound admitted)
      have onward := evolution.onward sound
      have head :=
        evolution.byte_kept sound member inside
          (fun value same =>
            untouched value (same ▸ List.mem_cons_self))
      have tail :=
        inductionHypothesis
          (sound_liveBlock_step sound admitted) later
          (onward.blocks member)
          (inside.trans_eq (onward.usable_eq member).symm)
          (fun value inRest =>
            untouched value (List.mem_cons_of_mem _ inRest))
      exact tail.trans head

/-- A `realloc` that fails leaves the session exactly as it was. -/
theorem realloc_failure_still
    {session : Session}
    {pointer size : UInt64}
    (sound : Sound session)
    (alive : pointer ∈ session.live)
    (small : size.toNat < 2 ^ 63)
    (positive : size ≠ 0)
    (failed :
      (session.step (.realloc (some pointer) size)).1 =
        .pointer none) :
    (session.step (.realloc (some pointer) size)).2 = session := by
  change
    (session.settle (.realloc (some pointer) size)
      (realloc session.allocator (some pointer) size)).1 =
        .pointer none at failed
  change
    (session.settle (.realloc (some pointer) size)
      (realloc session.allocator (some pointer) size)).2 = session
  obtain ⟨shape, -⟩ | shape | ⟨target, usable, after, shape, -⟩ :=
    realloc_cases sound.bounded positive small
      (sound.top (sound.live alive))
  · rw [shape] at failed
    cases failed
  · rw [shape]
    simp [Session.settle, created, granted, released, positive]
  · rw [shape] at failed
    cases failed

/--
The allocator refines a store of independent byte arrays.  Every run is a run
of the store with the same responses, in which the array of every live block
is its payload; a byte reads back as the value last written to it; and a
failing `realloc` changes nothing at all.
-/
theorem allocator_refines_arrays
    {requests : List Request}
    (admissible :
      liveBlockClients.Admissible Session.initial requests) :
    Specification.Run StoreStep ArrayStore.empty requests
        (liveBlockClients.responses Session.initial requests)
        (liveBlockClients.run Session.initial requests).storeOf ∧
      (∀ pointer ∈ (liveBlockClients.run Session.initial requests).live,
        ∃ bytes,
          (liveBlockClients.run Session.initial requests).storeOf
              pointer = some bytes ∧
            bytes.length =
              (liveBlockClients.run Session.initial requests).usable
                pointer ∧
            ∀ index,
              (inside : index < bytes.length) →
              bytes[index] =
                (liveBlockClients.run Session.initial
                  requests).allocator.heap (pointer.toNat + index)) ∧
      (∀ earlier pointer index value middle later,
        requests =
          earlier ++ .write pointer index value ::
            (middle ++ .read pointer index :: later) →
        (∀ other, Request.write pointer index other ∉ middle) →
        (liveBlockClients.step
          (liveBlockClients.run Session.initial
            (earlier ++ .write pointer index value :: middle))
          (.read pointer index)).1 = .byte value) ∧
      ∀ earlier pointer size later,
        requests = earlier ++ .realloc (some pointer) size :: later →
        size ≠ 0 →
        (liveBlockClients.step
          (liveBlockClients.run Session.initial earlier)
          (.realloc (some pointer) size)).1 = .pointer none →
        (liveBlockClients.step
          (liveBlockClients.run Session.initial earlier)
          (.realloc (some pointer) size)).2 =
            liveBlockClients.run Session.initial earlier := by
  have emptyStore :
      Session.initial.storeOf = ArrayStore.empty := by
    funext pointer
    rfl
  refine ⟨?_, ?_, ?_, ?_⟩
  · rw [← emptyStore]
    exact
      liveBlockClients.run_refines Session.storeOf
        sound_liveBlock_step Session.step_simulates
        sound_initial admissible
  · intro pointer alive
    refine ⟨_, Session.storeOf_live alive, by simp, ?_⟩
    intro index inside
    simp [Session.contents]
  · intro earlier pointer index value middle later shape untouched
    rw [shape, liveBlockClients.admissible_append] at admissible
    obtain ⟨first, admitted, rest⟩ := admissible
    have between :=
      (liveBlockClients.admissible_append.mp rest).1
    have sound := sound_liveBlock_run first
    have member := sound.live admitted.2.1
    have evolution :=
      Session.step_evolution sound
        (anyBlock_of_liveBlock sound admitted)
    have onward := evolution.onward sound
    have kept :=
      byte_kept_run (sound_liveBlock_step sound admitted) between
        (onward.blocks member)
        (admitted.2.2.trans_eq (onward.usable_eq member).symm)
        untouched
    have written :
        (liveBlockClients.step
          (liveBlockClients.run Session.initial earlier)
          (.write pointer index value)).2.allocator.heap
            (pointer.toNat + index) = value :=
      Memory.write_same _ _ _
    rw [liveBlockClients.run_append]
    exact congrArg Response.byte (kept.trans written)
  · intro earlier pointer size later shape positive failed
    rw [shape, liveBlockClients.admissible_append] at admissible
    obtain ⟨first, admitted, -⟩ := admissible
    have sound := sound_liveBlock_run first
    exact
      realloc_failure_still sound (admitted.2 pointer rfl)
        admitted.1 positive failed

/-- A run with writes, a moving `realloc` and a read of the moved byte. -/
theorem allocator_refines_arrays_moved :
    let requests : List Request :=
      [.calloc 3 4, .write 16 2 7, .malloc 1,
        .realloc (some 16) 40, .free (some 48), .read 80 2]
    Specification.Run StoreStep ArrayStore.empty requests
      (liveBlockClients.responses Session.initial requests)
      (liveBlockClients.run Session.initial requests).storeOf :=
  (allocator_refines_arrays (by decide +kernel)).1

end RubyOnBareMetal.Malloc
