import Mathlib.Data.Set.Lattice
import Mathlib.Order.CompletePartialOrder
import Mathlib.Order.Interval.Set.Basic
import RubyOnBareMetal.Malloc.Session

namespace RubyOnBareMetal.Malloc

open Foundation

/-!
# The blocks never overlap

Every admitted request moves a session along `Evolution`, every evolution
keeps `Sound` and leaves the header of every granted block as it was, and so
does every run.
-/

/-- `posix_memalign` stores the pointer `bump_alloc` returns. -/
theorem posixMemalign_block
    (state : Allocator)
    (alignment size : UInt64) :
    ((posixMemalign state alignment size).1.2,
        (posixMemalign state alignment size).2) =
      bumpAlloc state size alignment := by
  unfold posixMemalign
  rcases bumpAlloc state size alignment with ⟨_ | pointer, after⟩ <;> rfl

/-- `__expand_heap` returns the pointer `bump_alloc` returns. -/
theorem expandHeap_block
    (state : Allocator)
    (n : UInt64) :
    ((expandHeap state n).1.1, (expandHeap state n).2) =
      bumpAlloc state n 4096 := by
  unfold expandHeap
  rcases bumpAlloc state n 4096 with ⟨_ | pointer, after⟩ <;> rfl

namespace Session

/-- The session after a call that ended in a pointer and an allocator. -/
def settle
    (session : Session)
    (request : Request)
    (result : Option UInt64 × Allocator) :
    Response × Session :=
  (.pointer result.1, {
    allocator := result.2
    blocks :=
      (created request (.pointer result.1)).toList ++ session.blocks
    grants :=
      (granted request (.pointer result.1)).toList ++ session.grants
    live :=
      ((granted request (.pointer result.1)).map
          Grant.pointer).toList ++
        session.live.filter fun pointer =>
          released request (.pointer result.1) ≠ some pointer
  })

/-- A refused call settles into the session it started from. -/
theorem refused_evolution
    {session : Session}
    {request : Request}
    {result : Option UInt64 × Allocator}
    (shape : result = (none, session.allocator)) :
    Evolution session request (session.settle request result) := by
  have nothing : created request (.pointer none) = none := by
    cases request with
    | realloc ptr size =>
        cases ptr <;> rfl
    | _ =>
        rfl
  simp only [shape, settle, nothing]
  exact .still rfl (List.filter_subset_self _)

/-- A placed block settles into a session with that block. -/
theorem placed_evolution
    {session : Session}
    {request : Request}
    {result : Option UInt64 × Allocator}
    {after : Allocator}
    {pointer usable : UInt64}
    (shape : result = (some pointer, after))
    (new : created request (.pointer (some pointer)) = some pointer)
    (grown : Extends session.allocator after pointer usable)
    (large : request.asked ≤ usable.toNat) :
    Evolution session request (session.settle request result) := by
  simp only [shape, settle, new]
  exact .placed grown large
    (List.cons_subset_cons _ (List.filter_subset_self _))

/-- A plain allocation settles the result of `bump_alloc`. -/
theorem step_of_allocation
    (session : Session)
    {request : Request}
    {size alignment : UInt64}
    (shape : request.allocation? = some (size, alignment)) :
    session.step request =
      session.settle request
        (bumpAlloc session.allocator size alignment) := by
  cases request with
  | malloc n | memalign a n | alignedAlloc a n =>
      cases shape
      rfl
  | realloc ptr n =>
      cases ptr with
      | none =>
          cases shape
          rfl
      | some pointer =>
          cases shape
  | posixMemalign a n =>
      cases shape
      rw [← posixMemalign_block]
      rfl
  | expandHeap n =>
      cases shape
      rw [← expandHeap_block]
      rfl
  | calloc | free | write | read =>
      cases shape

/-- A plain allocation refuses or places a block of the size asked for. -/
theorem allocation_outcome
    {session : Session}
    {request : Request}
    {size alignment : UInt64}
    (sound : Sound session)
    (small : request.Small)
    (shape : request.allocation? = some (size, alignment)) :
    Outcome session.allocator request.asked
      (bumpAlloc session.allocator size alignment) := by
  have sixteen : (16 : UInt64).toNat = 16 := rfl
  have page : (4096 : UInt64).toNat = 4096 := rfl
  have asked : request.asked = size.toNat := by
    cases request with
    | realloc ptr n =>
        cases ptr <;> cases shape
        rfl
    | _ =>
        cases shape <;> rfl
  have bound : size.toNat + alignment.toNat ≤ 2 ^ 63 + 4096 := by
    cases request with
    | realloc ptr n =>
        cases ptr <;> cases shape
        simp only [Request.Small] at small
        omega
    | _ =>
        cases shape <;> simp only [Request.Small] at small <;> omega
  rw [asked]
  exact bumpAlloc_outcome sound.bounded bound

/-- The block of a plain allocation is a new one. -/
theorem created_of_allocation
    {request : Request}
    {size alignment : UInt64}
    (shape : request.allocation? = some (size, alignment))
    (pointer : UInt64) :
    created request (.pointer (some pointer)) = some pointer := by
  cases request with
  | realloc ptr n =>
      cases ptr <;> cases shape
      rfl
  | _ =>
      cases shape <;> rfl

/-- A plain allocation is an evolution. -/
theorem allocation_evolution
    {session : Session}
    {request : Request}
    {size alignment : UInt64}
    (sound : Sound session)
    (small : request.Small)
    (shape : request.allocation? = some (size, alignment)) :
    Evolution session request (session.step request) := by
  have outcome := allocation_outcome sound small shape
  rw [session.step_of_allocation shape]
  generalize bumpAlloc session.allocator size alignment = result
    at outcome
  cases outcome with
  | refused =>
      exact refused_evolution rfl
  | placed grown large payload =>
      exact placed_evolution rfl (created_of_allocation shape _)
        grown large

/-- Reallocating a granted block keeps it, refuses, or places a new one. -/
theorem realloc_evolution
    {session : Session}
    {pointer size : UInt64}
    (sound : Sound session)
    (member : pointer ∈ session.blocks)
    (small : size.toNat < 2 ^ 63) :
    Evolution session (.realloc (some pointer) size)
      (session.settle (.realloc (some pointer) size)
        (realloc session.allocator (some pointer) size)) := by
  by_cases zero : size = 0
  · have shape :
        realloc session.allocator (some pointer) size =
          (none, session.allocator) := by
      simp [realloc, free, zero]
    exact refused_evolution shape
  · obtain ⟨shape, enough⟩ | shape |
        ⟨target, usable, after, shape, grown, large, -⟩ :=
      realloc_cases sound.bounded zero small (sound.top member)
    · have old :
          created (.realloc (some pointer) size)
            (.pointer (some pointer)) = none :=
        if_pos rfl
      simp only [shape, settle, old]
      exact .kept member (UInt64.le_iff_toNat_le.mp enough)
        (List.cons_subset_cons _ (List.filter_subset_self _))
    · exact refused_evolution shape
    · have moved : target ≠ pointer := by
        rintro rfl
        have above := grown.above
        have top := sound.top member
        omega
      exact placed_evolution shape (if_neg moved) grown large

/-- Every request of clients that stay inside their blocks is an evolution. -/
theorem step_evolution
    {session : Session}
    {request : Request}
    (sound : Sound session)
    (admitted : anyBlockClients.admits session request) :
    Evolution session request (session.step request) := by
  obtain ⟨small, names⟩ := admitted
  cases request with
  | malloc | memalign | alignedAlloc | posixMemalign | expandHeap =>
      exact allocation_evolution sound small rfl
  | calloc nmemb size =>
      change Evolution session _
        (session.settle (.calloc nmemb size)
          (calloc session.allocator nmemb size))
      obtain shape | ⟨pointer, usable, after, shape, grown, large, -⟩ :=
        calloc_cases sound.bounded small
      · exact refused_evolution shape
      · exact placed_evolution shape rfl grown large
  | realloc ptr size =>
      cases ptr with
      | none =>
          exact allocation_evolution sound small rfl
      | some pointer =>
          exact realloc_evolution sound (names pointer rfl) small
  | free ptr =>
      exact .still rfl (List.filter_subset_self _)
  | write ptr index value =>
      exact .written names.1 names.2 (List.filter_subset_self _)
  | read ptr index =>
      exact .still rfl (List.filter_subset_self _)

/-! ## What a step leaves alone -/

/--
Later sessions know every earlier block, keep its header as it was and have
used at least as much of the heap.
-/
structure Onward (before after : Session) : Prop where
  blocks :
    before.blocks ⊆ after.blocks
  hdrKept :
    ∀ {pointer},
      pointer ∈ before.blocks →
      after.hdr pointer = before.hdr pointer
  climbs :
    before.allocator.heapUsed.toNat ≤ after.allocator.heapUsed.toNat

namespace Onward

theorem refl (session : Session) : Onward session session where
  blocks := List.Subset.refl _
  hdrKept _ := rfl
  climbs := Nat.le_refl _

theorem trans
    {first second third : Session}
    (before : Onward first second)
    (after : Onward second third) :
    Onward first third where
  blocks := List.Subset.trans before.blocks after.blocks
  hdrKept member :=
    (after.hdrKept (before.blocks member)).trans (before.hdrKept member)
  climbs := before.climbs.trans after.climbs

/-- The usable size of an earlier block stays the same. -/
theorem usable_eq
    {before after : Session}
    (onward : Onward before after)
    {pointer : UInt64}
    (member : pointer ∈ before.blocks) :
    after.usable pointer = before.usable pointer :=
  usable_congr (onward.hdrKept member)

end Onward

end Session

/-- The payload of a granted block is apart from every granted header. -/
theorem Sound.hdr_outside_payload
    {session : Session}
    (sound : Sound session)
    {owner pointer : UInt64}
    (ownerMember : owner ∈ session.blocks)
    (member : pointer ∈ session.blocks)
    {index : Nat}
    (inside : index < session.usable owner) :
    owner.toNat + index < pointer.toNat - 16 ∨
      pointer.toNat ≤ owner.toNat + index := by
  by_cases same : owner = pointer
  · subst owner
    exact .inr (by omega)
  · have room := sound.room member
    obtain below | above := sound.apart ownerMember member same
    · exact .inl (by omega)
    · exact .inr (by omega)

/-- A header that no changed byte belongs to is read as before. -/
theorem Session.hdr_congr
    {before after : Session}
    {pointer : UInt64}
    (room : 16 ≤ pointer.toNat)
    (same :
      ∀ address,
        pointer.toNat - 16 ≤ address →
        address < pointer.toNat →
        after.allocator.heap address = before.allocator.heap address) :
    after.hdr pointer = before.hdr pointer := by
  apply readHdr_congr
  intro address low high
  rw [toNat_sub_hdrSize room] at low high
  exact same address low (by omega)

namespace Evolution

/-- One step goes onward. -/
theorem onward
    {before : Session}
    {request : Request}
    {outcome : Response × Session}
    (sound : Sound before)
    (evolution : Evolution before request outcome) :
    Session.Onward before outcome.2 := by
  cases evolution with
  | still =>
      exact ⟨List.Subset.refl _, fun _ => rfl, Nat.le_refl _⟩
  | kept =>
      exact ⟨List.Subset.refl _, fun _ => rfl, Nat.le_refl _⟩
  | placed grown =>
      refine ⟨List.subset_cons_self _ _, ?_, ?_⟩
      · intro pointer member
        have top := sound.top member
        apply Session.hdr_congr (sound.room member)
        intro address low high
        exact grown.below address (by omega)
      · have above := grown.above
        have top := grown.top
        simp only
        omega
  | written member inside =>
      refine ⟨List.Subset.refl _, ?_, Nat.le_refl _⟩
      intro pointer pointerMember
      apply Session.hdr_congr (sound.room pointerMember)
      intro address low high
      have outside :=
        sound.hdr_outside_payload member pointerMember inside
      exact Memory.write_other _ _ (by omega)

/-- Placing a block above all others keeps the invariant. -/
private theorem placed_sound
    {before : Session}
    {after : Allocator}
    {pointer usable : UInt64}
    {asked : Nat}
    {live : List UInt64}
    (sound : Sound before)
    (grown : Extends before.allocator after pointer usable)
    (large : asked ≤ usable.toNat)
    (liveShape : live ⊆ pointer :: before.live)
    {next : Session}
    (shape :
      next = {
        allocator := after
        blocks := pointer :: before.blocks
        grants := ⟨pointer, asked⟩ :: before.grants
        live := live
      })
    (onward : Session.Onward before next) :
    Sound next := by
  have heapShape : next.allocator = after := by subst next; rfl
  have blocksShape : next.blocks = pointer :: before.blocks := by
    subst next
    rfl
  have grantsShape :
      next.grants = ⟨pointer, asked⟩ :: before.grants := by
    subst next
    rfl
  have usableNew : next.usable pointer = usable.toNat := by
    apply Session.usable_of_hdr
    subst next
    exact grown.hdr
  have above := grown.above
  have top := grown.top
  refine {
    bounded := ?_
    room := ?_
    top := ?_
    marked := ?_
    enough := ?_
    apart := ?_
    distinct := ?_
    granted := ?_
    live := ?_
    blank := ?_
  }
  · rw [heapShape]
    exact grown.bound
  · intro query member
    rw [blocksShape] at member
    rcases List.mem_cons.mp member with rfl | old
    · omega
    · exact sound.room old
  · intro query member
    rw [blocksShape] at member
    rw [heapShape]
    rcases List.mem_cons.mp member with rfl | old
    · omega
    · have oldTop := sound.top old
      rw [onward.usable_eq old]
      omega
  · intro query member
    rw [blocksShape] at member
    rcases List.mem_cons.mp member with rfl | old
    · subst next
      exact congrArg BlockHdr.magic grown.hdr
    · rw [onward.hdrKept old]
      exact sound.marked old
  · intro grant member
    rw [grantsShape] at member
    rcases List.mem_cons.mp member with rfl | old
    · rw [usableNew]
      exact large
    · rw [onward.usable_eq (sound.granted old)]
      exact sound.enough old
  · -- The new block lies above the top of every old one.
    intro first second firstMember secondMember different
    rw [blocksShape] at firstMember secondMember
    rcases List.mem_cons.mp firstMember with rfl | firstOld <;>
      rcases List.mem_cons.mp secondMember with rfl | secondOld
    · exact (different rfl).elim
    · have oldTop := sound.top secondOld
      rw [onward.usable_eq secondOld]
      exact .inr (by omega)
    · have oldTop := sound.top firstOld
      rw [onward.usable_eq firstOld]
      exact .inl (by omega)
    · rw [onward.usable_eq firstOld, onward.usable_eq secondOld]
      exact sound.apart firstOld secondOld different
  · rw [blocksShape, List.nodup_cons]
    refine ⟨?_, sound.distinct⟩
    intro old
    have oldTop := sound.top old
    omega
  · intro grant member
    rw [grantsShape] at member
    rw [blocksShape]
    rcases List.mem_cons.mp member with rfl | old
    · exact List.mem_cons_self
    · exact List.mem_cons_of_mem _ (sound.granted old)
  · intro query alive
    have member : query ∈ pointer :: before.live := by
      subst next
      exact liveShape alive
    rw [blocksShape]
    rcases List.mem_cons.mp member with rfl | old
    · exact List.mem_cons_self
    · exact List.mem_cons_of_mem _ (sound.live old)
  · intro address high
    rw [heapShape] at high ⊢
    rw [grown.beyond address high]
    exact sound.blank (by omega)

/-- Writing inside the payload of a block keeps the invariant. -/
private theorem written_sound
    {before : Session}
    {pointer : UInt64}
    {index : Nat}
    {value : UInt8}
    {live : List UInt64}
    (sound : Sound before)
    (member : pointer ∈ before.blocks)
    (inside : index < before.usable pointer)
    (liveShape : live ⊆ before.live)
    {next : Session}
    (shape :
      next = {
        allocator := {
          before.allocator with
          heap :=
            before.allocator.heap.write (pointer.toNat + index) value
        }
        blocks := before.blocks
        grants := before.grants
        live := live
      })
    (onward : Session.Onward before next) :
    Sound next := by
  have blocksShape : next.blocks = before.blocks := by subst next; rfl
  have grantsShape : next.grants = before.grants := by subst next; rfl
  have usedShape :
      next.allocator.heapUsed = before.allocator.heapUsed := by
    subst next
    rfl
  refine {
    bounded := ?_
    room := ?_
    top := ?_
    marked := ?_
    enough := ?_
    apart := ?_
    distinct := ?_
    granted := ?_
    live := ?_
    blank := ?_
  }
  · unfold Allocator.Bounded
    rw [usedShape]
    exact sound.bounded
  · rw [blocksShape]
    exact sound.room
  · intro query queryMember
    rw [blocksShape] at queryMember
    rw [usedShape, onward.usable_eq queryMember]
    exact sound.top queryMember
  · intro query queryMember
    rw [blocksShape] at queryMember
    rw [onward.hdrKept queryMember]
    exact sound.marked queryMember
  · intro grant grantMember
    rw [grantsShape] at grantMember
    rw [onward.usable_eq (sound.granted grantMember)]
    exact sound.enough grantMember
  · intro first second firstMember secondMember different
    rw [blocksShape] at firstMember secondMember
    rw [onward.usable_eq firstMember, onward.usable_eq secondMember]
    exact sound.apart firstMember secondMember different
  · rw [blocksShape]
    exact sound.distinct
  · rw [grantsShape, blocksShape]
    exact sound.granted
  · intro query alive
    rw [blocksShape]
    subst next
    exact sound.live (liveShape alive)
  · intro address high
    rw [usedShape] at high
    have top := sound.top member
    have different : address ≠ pointer.toNat + index := by omega
    subst next
    exact (Memory.write_other _ _ different).trans (sound.blank high)

/-- Every evolution keeps the invariant. -/
theorem sound_after
    {before : Session}
    {request : Request}
    {outcome : Response × Session}
    (sound : Sound before)
    (evolution : Evolution before request outcome) :
    Sound outcome.2 := by
  have onward := evolution.onward sound
  cases evolution with
  | still _ liveShape =>
      exact {
        bounded := sound.bounded
        room := sound.room
        top := sound.top
        marked := sound.marked
        enough := sound.enough
        apart := sound.apart
        distinct := sound.distinct
        granted := sound.granted
        live := fun alive => sound.live (liveShape alive)
        blank := sound.blank
      }
  | kept member enough liveShape =>
      exact {
        bounded := sound.bounded
        room := sound.room
        top := sound.top
        marked := sound.marked
        enough := by
          intro grant grantMember
          rcases List.mem_cons.mp grantMember with rfl | old
          · exact enough
          · exact sound.enough old
        apart := sound.apart
        distinct := sound.distinct
        granted := by
          intro grant grantMember
          rcases List.mem_cons.mp grantMember with rfl | old
          · exact member
          · exact sound.granted old
        live := by
          intro query alive
          rcases List.mem_cons.mp (liveShape alive) with rfl | old
          · exact member
          · exact sound.live old
        blank := sound.blank
      }
  | placed grown large liveShape =>
      exact placed_sound sound grown large liveShape rfl onward
  | written member inside liveShape =>
      exact written_sound sound member inside liveShape rfl onward

end Evolution

/-- An admitted request keeps the invariant. -/
theorem sound_step
    {session : Session}
    {request : Request}
    (sound : Sound session)
    (admitted : anyBlockClients.admits session request) :
    Sound (anyBlockClients.step session request).2 :=
  (Session.step_evolution sound admitted).sound_after sound

/-- Every run from the start of the kernel is sound. -/
theorem sound_run
    {requests : List Request}
    (admissible : anyBlockClients.Admissible Session.initial requests) :
    Sound (anyBlockClients.run Session.initial requests) :=
  anyBlockClients.run_invariant sound_step sound_initial admissible

/-- Every run goes onward. -/
theorem onward_run
    {session : Session}
    {requests : List Request}
    (sound : Sound session)
    (admissible : anyBlockClients.Admissible session requests) :
    Session.Onward session (anyBlockClients.run session requests) :=
  anyBlockClients.run_climbs Session.Onward.refl Session.Onward.trans
    sound_step
    (fun sound admitted =>
      (Session.step_evolution sound admitted).onward sound)
    sound admissible

/-! ## The heap as the clients see it -/

/-- The bytes of a block: its header and its payload. -/
def Session.footprint (session : Session) (pointer : UInt64) : Set Nat :=
  Set.Ico (pointer.toNat - 16) (pointer.toNat + session.usable pointer)

/-- Distinct blocks of a sound session have disjoint footprints. -/
theorem Sound.footprints_disjoint
    {session : Session}
    (sound : Sound session) :
    session.blocks.Pairwise fun first second =>
      Disjoint (session.footprint first) (session.footprint second) := by
  refine sound.distinct.imp_of_mem ?_
  intro first second firstMember secondMember different
  have apart := sound.apart firstMember secondMember different
  have firstRoom := sound.room firstMember
  have secondRoom := sound.room secondMember
  rw [Set.disjoint_left]
  intro address inFirst inSecond
  simp only [Session.footprint, Set.mem_Ico] at inFirst inSecond
  omega

/-- A footprint lies inside the heap array, header included. -/
theorem Sound.footprint_subset
    {session : Session}
    (sound : Sound session)
    {pointer : UInt64}
    (member : pointer ∈ session.blocks) :
    session.footprint pointer ⊆ Set.Ico 0 heapSize.toNat := by
  intro address inside
  have top := sound.top member
  have bounded : session.allocator.heapUsed.toNat ≤ heapSize.toNat :=
    sound.bounded
  simp only [Session.footprint, Set.mem_Ico] at inside ⊢
  omega

/--
In every run of clients that stay inside the blocks they were given, all
blocks ever returned are pairwise disjoint, lie inside the heap and are as
large as was asked; between any two moments of the run every header stays as
it was and `heap_used` does not decrease.
-/
theorem blocks_never_overlap
    (requests later : List Request)
    (admissible :
      anyBlockClients.Admissible Session.initial (requests ++ later)) :
    let before := anyBlockClients.run Session.initial requests
    let after := anyBlockClients.run Session.initial (requests ++ later)
    (after.blocks.Pairwise fun first second =>
        Disjoint (after.footprint first) (after.footprint second)) ∧
      (∀ pointer ∈ after.blocks,
        16 ≤ pointer.toNat ∧
          after.footprint pointer ⊆ Set.Ico 0 heapSize.toNat) ∧
      (∀ grant ∈ after.grants,
        grant.pointer ∈ after.blocks ∧
          grant.asked ≤ after.usable grant.pointer) ∧
      (∀ pointer ∈ before.blocks,
        pointer ∈ after.blocks ∧
          after.hdr pointer = before.hdr pointer ∧
          (after.hdr pointer).magic = magic) ∧
      before.allocator.heapUsed.toNat ≤ after.allocator.heapUsed.toNat ∧
      after.allocator.heapUsed.toNat ≤ heapSize.toNat := by
  intro before after
  obtain ⟨first, second⟩ :=
    anyBlockClients.admissible_append.mp admissible
  have soundBefore : Sound before := sound_run first
  have soundAfter : Sound after := sound_run admissible
  have onward : Session.Onward before after := by
    simp only [after, anyBlockClients.run_append]
    exact onward_run soundBefore second
  refine ⟨soundAfter.footprints_disjoint, ?_, ?_, ?_, onward.climbs,
    soundAfter.bounded⟩
  · intro pointer member
    exact ⟨soundAfter.room member, soundAfter.footprint_subset member⟩
  · intro grant member
    exact ⟨soundAfter.granted member, soundAfter.enough member⟩
  · intro pointer member
    exact ⟨onward.blocks member, onward.hdrKept member,
      soundAfter.marked (onward.blocks member)⟩

/--
A run that mixes the entry points, with an alignment that is not a power of
two, an in-place and a moving `realloc` and a write at the end of a block.
-/
theorem blocks_never_overlap_mixed :
    let session :=
      anyBlockClients.run Session.initial
        [.malloc 10, .memalign 24 7, .write 16 15 255,
          .calloc 3 5, .realloc (some 16) 12, .realloc (some 16) 100]
    session.blocks.Pairwise fun first second =>
      Disjoint (session.footprint first) (session.footprint second) :=
  (blocks_never_overlap
    [.malloc 10, .memalign 24 7, .write 16 15 255]
    [.calloc 3 5, .realloc (some 16) 12, .realloc (some 16) 100]
    (by decide +kernel)).1

end RubyOnBareMetal.Malloc
