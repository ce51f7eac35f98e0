import RubyOnBareMetal.Foundation.Machine
import RubyOnBareMetal.Malloc.Growth

namespace RubyOnBareMetal.Malloc

open Foundation

/-!
# Client sessions

A session is the allocator together with the record of what its clients were
given.  The record is ghost state: no source function reads it.  It is what
the promises of the clients are about (they pass on and write to blocks they
were given) and what the invariant `Sound` ranges over.
-/

/-- One call of the allocator, or one access of a client to a block. -/
inductive Request where
  | malloc (size : UInt64)
  | calloc (nmemb size : UInt64)
  | realloc (ptr : Option UInt64) (size : UInt64)
  | free (ptr : Option UInt64)
  | memalign (alignment size : UInt64)
  | alignedAlloc (alignment size : UInt64)
  | posixMemalign (alignment size : UInt64)
  | expandHeap (n : UInt64)
  | write (ptr : UInt64) (index : Nat) (value : UInt8)
  | read (ptr : UInt64) (index : Nat)
  deriving Repr, DecidableEq

/-- What the client sees of a call. -/
inductive Response where
  | pointer (ptr : Option UInt64)
  | byte (value : UInt8)
  | done
  deriving Repr, DecidableEq

namespace Request

/-- The number of bytes a call asks for. -/
def asked : Request → Nat
  | .malloc size => size.toNat
  | .calloc nmemb size => nmemb.toNat * size.toNat
  | .realloc _ size => size.toNat
  | .memalign _ size => size.toNat
  | .alignedAlloc _ size => size.toNat
  | .posixMemalign _ size => size.toNat
  | .expandHeap n => n.toNat
  | _ => 0

/-- The sizes and alignments stay below half of the address space. -/
def Small : Request → Prop
  | .malloc size => size.toNat < 2 ^ 63
  | .calloc nmemb size => nmemb.toNat * size.toNat < 2 ^ 63
  | .realloc _ size => size.toNat < 2 ^ 63
  | .memalign alignment size => size.toNat + alignment.toNat < 2 ^ 63
  | .alignedAlloc alignment size => size.toNat + alignment.toNat < 2 ^ 63
  | .posixMemalign alignment size => size.toNat + alignment.toNat < 2 ^ 63
  | .expandHeap n => n.toNat < 2 ^ 63
  | _ => True

/--
The size and the alignment a call hands to `bump_alloc` when it does nothing
else with the block.
-/
def allocation? : Request → Option (UInt64 × UInt64)
  | .malloc size => some (size, 16)
  | .realloc none size => some (size, 16)
  | .memalign alignment size => some (size, alignment)
  | .alignedAlloc alignment size => some (size, alignment)
  | .posixMemalign alignment size => some (size, alignment)
  | .expandHeap n => some (n, 4096)
  | _ => none

instance decidableSmall : ∀ request : Request, Decidable request.Small
  | .malloc _ | .calloc .. | .realloc .. | .memalign ..
  | .alignedAlloc .. | .posixMemalign .. | .expandHeap _ =>
      inferInstanceAs (Decidable (_ < _))
  | .free _ | .write .. | .read .. =>
      inferInstanceAs (Decidable True)

end Request

/-- Run one request on the allocator. -/
def call (state : Allocator) : Request → Response × Allocator
  | .malloc size =>
      let (ptr, after) := malloc state size
      (.pointer ptr, after)
  | .calloc nmemb size =>
      let (ptr, after) := calloc state nmemb size
      (.pointer ptr, after)
  | .realloc ptr size =>
      let (ptr, after) := realloc state ptr size
      (.pointer ptr, after)
  | .free ptr =>
      (.done, free state ptr)
  | .memalign alignment size =>
      let (ptr, after) := memalign state alignment size
      (.pointer ptr, after)
  | .alignedAlloc alignment size =>
      let (ptr, after) := alignedAlloc state alignment size
      (.pointer ptr, after)
  | .posixMemalign alignment size =>
      let ((_, memptr), after) := posixMemalign state alignment size
      (.pointer memptr, after)
  | .expandHeap n =>
      let ((ptr, _), after) := expandHeap state n
      (.pointer ptr, after)
  | .write ptr index value =>
      (.done,
        { state with heap := state.heap.write (ptr.toNat + index) value })
  | .read ptr index =>
      (.byte (state.heap (ptr.toNat + index)), state)

/-- A block handed to a client and the size that was asked for. -/
structure Grant where
  pointer : UInt64
  asked : Nat
  deriving Repr, DecidableEq

/-- The block a response hands to the client. -/
def granted (request : Request) : Response → Option Grant
  | .pointer (some ptr) => some ⟨ptr, request.asked⟩
  | _ => none

/--
The block a call creates.  A `realloc` that returns its argument hands out the
block it was given.
-/
def created : Request → Response → Option UInt64
  | .realloc (some old) _, .pointer (some ptr) =>
      if ptr = old then none else some ptr
  | _, .pointer ptr => ptr
  | _, _ => none

/-- The block a call takes back from the client. -/
def released : Request → Response → Option UInt64
  | .free ptr, _ => ptr
  | .realloc ptr size, .pointer result =>
      if size = 0 ∨ result.isSome then ptr else none
  | _, _ => none

/--
The allocator, the blocks it created, the grants it made of them and the
blocks still in use, each list newest first.
-/
structure Session where
  allocator : Allocator
  blocks : List UInt64
  grants : List Grant
  live : List UInt64

namespace Session

/-- Before the first call. -/
def initial : Session where
  allocator := Allocator.initial
  blocks := []
  grants := []
  live := []

/-- The usable size of a block, as `malloc_usable_size` reports it. -/
def usable (session : Session) (pointer : UInt64) : Nat :=
  (mallocUsableSize session.allocator (some pointer)).toNat

/-- The header in front of a block. -/
def hdr (session : Session) (pointer : UInt64) : BlockHdr :=
  readHdr session.allocator.heap (pointer - hdrSize)

/-- Run one request and record what it gave and took. -/
def step (session : Session) (request : Request) : Response × Session :=
  let (response, after) := call session.allocator request
  (response, {
    allocator := after
    blocks := (created request response).toList ++ session.blocks
    grants := (granted request response).toList ++ session.grants
    live :=
      ((granted request response).map Grant.pointer).toList ++
        session.live.filter fun pointer =>
          released request response ≠ some pointer
  })

/-- A client may only name blocks of a list and bytes inside them. -/
def NamesOnly
    (session : Session)
    (blocks : List UInt64) : Request → Prop
  | .realloc ptr _ => ∀ pointer ∈ ptr, pointer ∈ blocks
  | .write ptr index _ => ptr ∈ blocks ∧ index < session.usable ptr
  | .read ptr index => ptr ∈ blocks ∧ index < session.usable ptr
  | _ => True

instance decidableNamesOnly
    (session : Session)
    (blocks : List UInt64) :
    ∀ request, Decidable (session.NamesOnly blocks request)
  | .realloc ptr _ =>
      Option.decidableForallMem ptr
  | .write ptr index _ =>
      inferInstanceAs
        (Decidable (ptr ∈ blocks ∧ index < session.usable ptr))
  | .read ptr index =>
      inferInstanceAs
        (Decidable (ptr ∈ blocks ∧ index < session.usable ptr))
  | .malloc _ | .calloc .. | .free _ | .memalign ..
  | .alignedAlloc .. | .posixMemalign .. | .expandHeap _ =>
      inferInstanceAs (Decidable True)

end Session

/-- Clients that use any block they were ever given. -/
def anyBlockClients : Machine Session Request Response where
  step := Session.step
  admits session request :=
    request.Small ∧ session.NamesOnly session.blocks request

/-- Clients that use only blocks they have not given back. -/
def liveBlockClients : Machine Session Request Response where
  step := Session.step
  admits session request :=
    request.Small ∧ session.NamesOnly session.live request

instance decidableAnyBlockAdmits
    (session : Session)
    (request : Request) :
    Decidable (anyBlockClients.admits session request) :=
  inferInstanceAs
    (Decidable (_ ∧ session.NamesOnly session.blocks request))

instance decidableLiveBlockAdmits
    (session : Session)
    (request : Request) :
    Decidable (liveBlockClients.admits session request) :=
  inferInstanceAs
    (Decidable (_ ∧ session.NamesOnly session.live request))

/-! ## The invariant -/

/--
What holds of every session: the blocks lie below `heap_used` with their
headers in front of them, they do not overlap, and the heap above `heap_used`
has never been written.
-/
structure Sound (session : Session) : Prop where
  bounded :
    session.allocator.Bounded
  room :
    ∀ {pointer},
      pointer ∈ session.blocks →
      16 ≤ pointer.toNat
  top :
    ∀ {pointer},
      pointer ∈ session.blocks →
      pointer.toNat + session.usable pointer ≤
        session.allocator.heapUsed.toNat
  marked :
    ∀ {pointer},
      pointer ∈ session.blocks →
      (session.hdr pointer).magic = magic
  enough :
    ∀ {grant},
      grant ∈ session.grants →
      grant.asked ≤ session.usable grant.pointer
  apart :
    ∀ {first second},
      first ∈ session.blocks →
      second ∈ session.blocks →
      first ≠ second →
      first.toNat + session.usable first + 16 ≤ second.toNat ∨
        second.toNat + session.usable second + 16 ≤ first.toNat
  distinct :
    session.blocks.Nodup
  granted :
    ∀ {grant},
      grant ∈ session.grants →
      grant.pointer ∈ session.blocks
  live :
    ∀ {pointer},
      pointer ∈ session.live →
      pointer ∈ session.blocks
  blank :
    ∀ {address},
      session.allocator.heapUsed.toNat ≤ address →
      session.allocator.heap address = 0

/-- The usable size is read from the header alone. -/
theorem Session.usable_congr
    {first second : Session}
    {pointer : UInt64}
    (same : first.hdr pointer = second.hdr pointer) :
    first.usable pointer = second.usable pointer := by
  unfold Session.hdr at same
  simp only [Session.usable, mallocUsableSize, same]

/-- A marked header reports its size as the usable size. -/
theorem Session.usable_of_hdr
    {session : Session}
    {pointer size : UInt64}
    (shape : session.hdr pointer = ⟨size, magic⟩) :
    session.usable pointer = size.toNat := by
  unfold Session.hdr at shape
  simp [Session.usable, mallocUsableSize, shape]

/-- Before the first call nothing has been granted. -/
theorem sound_initial : Sound Session.initial where
  bounded := Nat.zero_le _
  room := by simp [Session.initial]
  top := by simp [Session.initial]
  marked := by simp [Session.initial]
  enough := by simp [Session.initial]
  apart := by simp [Session.initial]
  distinct := List.nodup_nil
  granted := by simp [Session.initial]
  live := by simp [Session.initial]
  blank := by
    intro address _
    rfl

/--
How one admitted request changes a session.  Nothing is granted and the
allocator stays as it was; a block the client already has is granted again; a
new block is placed above all others; or a byte of a granted block is written.
-/
inductive Evolution (before : Session) :
    Request → Response × Session → Prop where
  | still
      {request : Request} {response : Response} {live : List UInt64} :
      granted request response = none →
      live ⊆ before.live →
      Evolution before request
        (response, { before with live := live })
  | kept
      {request : Request} {pointer : UInt64} {live : List UInt64} :
      pointer ∈ before.blocks →
      request.asked ≤ before.usable pointer →
      live ⊆ pointer :: before.live →
      Evolution before request
        (.pointer (some pointer), {
          allocator := before.allocator
          blocks := before.blocks
          grants := ⟨pointer, request.asked⟩ :: before.grants
          live := live
        })
  | placed
      {request : Request} {after : Allocator}
      {pointer usable : UInt64} {live : List UInt64} :
      Extends before.allocator after pointer usable →
      request.asked ≤ usable.toNat →
      live ⊆ pointer :: before.live →
      Evolution before request
        (.pointer (some pointer), {
          allocator := after
          blocks := pointer :: before.blocks
          grants := ⟨pointer, request.asked⟩ :: before.grants
          live := live
        })
  | written
      {pointer : UInt64} {index : Nat} {value : UInt8}
      {live : List UInt64} :
      pointer ∈ before.blocks →
      index < before.usable pointer →
      live ⊆ before.live →
      Evolution before (.write pointer index value)
        (.done, {
          allocator := {
            before.allocator with
            heap :=
              before.allocator.heap.write (pointer.toNat + index) value
          }
          blocks := before.blocks
          grants := before.grants
          live := live
        })

end RubyOnBareMetal.Malloc
