import RubyOnBareMetal.Mmap.Mappings

namespace RubyOnBareMetal.Mmap

open Foundation

/-!
# Every mapping is fresh and stays apart

One call of either layer is a system call whose result the layer reports in
its own way.  From the outcomes of the two system calls follow the invariant
of the mappings, the contents of new mappings and the effect of failures.
-/

namespace Session

/-- Report the result of a system call the way the layer of a request does. -/
def settle
    (session : Session)
    (request : Request)
    (result : Int64 × AddressSpace) :
    Response × Session :=
  match request with
  | .syscall .. =>
      (.long result.1, {
        libc := { session.libc with space := result.2 }
        mappings :=
          recorded session.mappings request (.long result.1)
      })
  | _ =>
      (.pointer (translate session.libc result).1, {
        libc := (translate session.libc result).2
        mappings :=
          recorded session.mappings request
            (.pointer (translate session.libc result).1)
      })

/-- The cursor of a session stays in bounds. -/
def Within (session : Session) : Prop :=
  session.libc.space.Within

/-- A request for new pages reports the result of `sys_mmap`. -/
theorem step_mmap
    {session : Session}
    {request : Request}
    {length : UInt64}
    {prot : Int32}
    (within : session.Within)
    (shape : request.mmap? = some (length, prot)) :
    ∃ addr flags fd offset,
      session.step request =
        session.settle request
          (sysMmap session.libc.space addr length prot
            flags fd offset) := by
  cases request with
  | syscall n a1 a2 a3 a4 a5 a6 =>
      cases n <;> cases shape
      exact ⟨a1.toUInt64, a4.toInt32, a5.toInt32, a6, rfl⟩
  | mmap addr length prot flags fd offset =>
      cases shape
      refine ⟨addr, flags, fd, offset, ?_⟩
      simp only [step, call, settle,
        mmap_eq_translate within.2 addr length prot flags fd offset]
  | _ =>
      cases shape

/-- A request to resize reports the result of `sys_mremap`. -/
theorem step_mremap
    {session : Session}
    {request : Request}
    {oldAddr oldSize newSize : UInt64}
    (within : session.Within)
    (shape : request.mremap? = some (oldAddr, oldSize, newSize)) :
    ∃ flags,
      session.step request =
        session.settle request
          (sysMremap session.libc.space oldAddr oldSize newSize
            flags) := by
  cases request with
  | syscall n a1 a2 a3 a4 a5 a6 =>
      cases n <;> cases shape
      exact ⟨a4.toInt32, rfl⟩
  | mremap oldAddr oldSize newSize flags =>
      cases shape
      refine ⟨flags, ?_⟩
      simp only [step, call, settle,
        mremap_eq_translate within.2 oldAddr oldSize newSize flags]
  | _ =>
      cases shape

/-- Both layers keep the state that the system call leaves. -/
theorem settle_space
    (session : Session)
    (request : Request)
    (result : Int64 × AddressSpace) :
    (session.settle request result).2.libc.space = result.2 := by
  have translated (state : Libc) :
      (translate state result).2.space = result.2 := by
    unfold translate
    split <;> rfl
  cases request with
  | syscall =>
      rfl
  | _ =>
      exact translated session.libc

/-- What a layer reports when the system call refuses. -/
def RefusedBy (request : Request) (response : Response) (errno : Int64) :
    Prop :=
  match request with
  | .syscall .. => response = .long (-Errno.ENOMEM)
  | _ => response = .pointer mapFailed ∧ errno = Errno.ENOMEM

/-- A refused system call is reported as `ENOMEM` and changes nothing. -/
theorem settle_refused
    (session : Session)
    (request : Request) :
    let outcome :=
      session.settle request (-Errno.ENOMEM, session.libc.space)
    outcome.1.address? = none ∧
      outcome.2.libc.space = session.libc.space ∧
      outcome.2.mappings = session.mappings ∧
      RefusedBy request outcome.1 outcome.2.libc.errno := by
  have noAddress :
      Response.address? (.long (-Errno.ENOMEM)) = none := by decide
  cases request with
  | syscall n =>
      refine ⟨noAddress, rfl, ?_, rfl⟩
      cases n <;> simp [settle, recorded, noAddress]
  | _ =>
      simp [settle, translate_refused, Response.address?, recorded,
        RefusedBy]

/-- A successful system call is reported as the address it returned. -/
theorem settle_address
    (session : Session)
    (request : Request)
    {address : UInt64}
    (after : AddressSpace)
    (low : address.toNat < 2 ^ 63) :
    let outcome := session.settle request (address.toInt64, after)
    outcome.1.address? = some address ∧
      outcome.2.libc.space = after ∧
      outcome.2.mappings =
        recorded session.mappings request outcome.1 := by
  cases request with
  | syscall =>
      simp [settle, Response.address?, not_toInt64_lt_zero low]
  | _ =>
      simp [settle, translate_address _ _ low, Response.address?,
        ne_mapFailed low]

end Session

/-- What a request for new pages records. -/
theorem recorded_mmap
    {mappings : List Mapping}
    {request : Request}
    {response : Response}
    {length address : UInt64}
    {prot : Int32}
    (asked : request.mmap? = some (length, prot))
    (answered : response.address? = some address) :
    recorded mappings request response =
      ⟨address, length⟩ :: mappings := by
  simp [recorded, asked, answered]

/-- A request is either for new pages or to resize. -/
theorem Request.mmap?_of_mremap?
    {request : Request}
    {asked : UInt64 × UInt64 × UInt64}
    (shape : request.mremap? = some asked) :
    request.mmap? = none := by
  cases request with
  | syscall n =>
      cases n <;> first | rfl | cases shape
  | mremap =>
      rfl
  | _ =>
      cases shape

/-- A resize that moves, or that was given an error value, adds a mapping. -/
theorem recorded_grown
    {mappings : List Mapping}
    {request : Request}
    {response : Response}
    {oldAddr oldSize newSize address : UInt64}
    (asked : request.mremap? = some (oldAddr, oldSize, newSize))
    (answered : response.address? = some address)
    (grows : IsErrorValue oldAddr ∨ oldSize < newSize) :
    recorded mappings request response =
      ⟨address, newSize⟩ :: mappings := by
  simp [recorded, Request.mmap?_of_mremap? asked, asked, answered, grows]

/-- A resize in place replaces the mapping by its shorter self. -/
theorem recorded_shrunk
    {mappings : List Mapping}
    {request : Request}
    {response : Response}
    {oldAddr oldSize newSize address : UInt64}
    (asked : request.mremap? = some (oldAddr, oldSize, newSize))
    (answered : response.address? = some address)
    (valid : ¬IsErrorValue oldAddr)
    (shrinks : newSize ≤ oldSize) :
    recorded mappings request response =
      ⟨address, newSize⟩ :: mappings.erase ⟨oldAddr, oldSize⟩ := by
  have notGrowing : ¬(IsErrorValue oldAddr ∨ oldSize < newSize) := by
    rintro (error | grows)
    · exact valid error
    · exact absurd shrinks (UInt64.not_le.mpr grows)
  simp [recorded, Request.mmap?_of_mremap? asked, asked, answered,
    notGrowing]

/-! ## The invariant -/

/--
The cursor is in bounds, every mapping starts on a page above the base and
ends below the cursor, and no two mappings share a page.
-/
structure Sound (session : Session) : Prop where
  within :
    session.Within
  page :
    ∀ {mapping},
      mapping ∈ session.mappings →
      mapping.address.toNat % 4096 = 0
  base :
    ∀ {mapping},
      mapping ∈ session.mappings →
      mmapBase.toNat ≤ mapping.address.toNat
  top :
    ∀ {mapping},
      mapping ∈ session.mappings →
      mapping.address.toNat + mapping.length.toNat ≤
        session.libc.space.mmapNext.toNat
  apart :
    session.mappings.Pairwise Mapping.Apart

namespace Sound

/-- The invariant is about the cursor and the mappings alone. -/
theorem of_same
    {before after : Session}
    (sound : Sound before)
    (cursor :
      after.libc.space.mmapNext = before.libc.space.mmapNext)
    (mappings : after.mappings = before.mappings) :
    Sound after where
  within := by
    unfold Session.Within AddressSpace.Within
    rw [cursor]
    exact sound.within
  page := by
    rw [mappings]
    exact sound.page
  base := by
    rw [mappings]
    exact sound.base
  top := by
    rw [mappings, cursor]
    exact sound.top
  apart := by
    rw [mappings]
    exact sound.apart

/-- A mapping starts below half of the address space. -/
theorem low
    {session : Session}
    (sound : Sound session)
    {mapping : Mapping}
    (member : mapping ∈ session.mappings) :
    mapping.address.toNat < 2 ^ 63 := by
  have limit : mmapLimit.toNat = 0x1F000000 := rfl
  have top := sound.top member
  have bound :
      session.libc.space.mmapNext.toNat ≤ mmapLimit.toNat :=
    sound.within.2
  omega

end Sound

/-- How one request changes the mappings and the bytes in them. -/
inductive Evolution (before : Session) : Session → Prop where
  | still
      {after : Session} :
      after.libc.space = before.libc.space →
      after.mappings = before.mappings →
      Evolution before after
  | placed
      {after : Session} {address length : UInt64} :
      Placed before.libc.space after.libc.space address length →
      after.mappings = ⟨address, length⟩ :: before.mappings →
      Evolution before after
  | shrunk
      {after : Session} {address oldSize newSize : UInt64} :
      (⟨address, oldSize⟩ : Mapping) ∈ before.mappings →
      newSize ≤ oldSize →
      after.libc.space = before.libc.space →
      after.mappings =
        ⟨address, newSize⟩ :: before.mappings.erase ⟨address, oldSize⟩ →
      Evolution before after
  | written
      {after : Session} {address : UInt64} {value : UInt8} :
      after.libc.space = {
        before.libc.space with
        ram := before.libc.space.ram.write address.toNat value
      } →
      after.mappings = before.mappings →
      Evolution before after

namespace Session

/-- A placed range that is recorded as a new mapping is an evolution. -/
theorem placed_evolution
    {session : Session}
    {request : Request}
    {after : AddressSpace}
    {address length : UInt64}
    (placed : Placed session.libc.space after address length)
    (records :
      ∀ {response : Response},
        response.address? = some address →
        recorded session.mappings request response =
          ⟨address, length⟩ :: session.mappings) :
    Evolution session
      (session.settle request (address.toInt64, after)).2 := by
  obtain ⟨answered, space, mappings⟩ :=
    session.settle_address request after placed.low
  refine .placed ?_ (mappings.trans (records answered))
  rw [space]
  exact placed

/-- A request for new pages is an evolution. -/
theorem mmap_evolution
    {session : Session}
    {request : Request}
    {length : UInt64}
    {prot : Int32}
    (sound : Sound session)
    (small : length.toNat < 2 ^ 63)
    (shape : request.mmap? = some (length, prot)) :
    Evolution session (session.step request).2 := by
  obtain ⟨addr, flags, fd, offset, stepShape⟩ :=
    step_mmap sound.within shape
  have outcome :=
    sysMmap_outcome sound.within small addr prot flags fd offset
  rw [stepShape]
  generalize
    sysMmap session.libc.space addr length prot flags fd offset = result
    at outcome
  cases outcome with
  | refused =>
      obtain ⟨-, space, mappings, -⟩ := session.settle_refused request
      exact .still space mappings
  | placed placed zeroed =>
      exact placed_evolution placed (recorded_mmap shape)

/-- A request to resize a mapping or an error value is an evolution. -/
theorem mremap_evolution
    {session : Session}
    {request : Request}
    {oldAddr oldSize newSize : UInt64}
    (sound : Sound session)
    (small : newSize.toNat < 2 ^ 63)
    (valid :
      IsErrorValue oldAddr ∨
        (⟨oldAddr, oldSize⟩ : Mapping) ∈ session.mappings)
    (shape : request.mremap? = some (oldAddr, oldSize, newSize)) :
    Evolution session (session.step request).2 := by
  obtain ⟨flags, stepShape⟩ := step_mremap sound.within shape
  have outcome :=
    sysMremap_outcome sound.within small oldAddr oldSize flags
  rw [stepShape]
  generalize
    sysMremap session.libc.space oldAddr oldSize newSize flags = result
    at outcome
  cases outcome with
  | refused =>
      obtain ⟨-, space, mappings, -⟩ := session.settle_refused request
      exact .still space mappings
  | fresh error placed zeroed =>
      exact placed_evolution placed fun answered =>
        recorded_grown shape answered (.inl error)
  | kept noError shrinks =>
      have member := valid.resolve_left noError
      obtain ⟨answered, space, mappings⟩ :=
        session.settle_address request session.libc.space
          (sound.low member)
      refine .shrunk member shrinks space (mappings.trans ?_)
      exact recorded_shrunk shape answered noError shrinks
  | moved noError grows placed copied zeroed =>
      exact placed_evolution placed fun answered =>
        recorded_grown shape answered (.inr grows)

/-- Every admitted request is an evolution. -/
theorem step_evolution
    {session : Session}
    {request : Request}
    (sound : Sound session)
    (admitted : clients.admits session request) :
    Evolution session (session.step request).2 := by
  obtain ⟨mmapSmall, mremapSmall, -⟩ := admitted
  cases request with
  | syscall n a1 a2 a3 a4 a5 a6 =>
      cases n with
      | mmap =>
          exact mmap_evolution sound (mmapSmall _ rfl) rfl
      | mremap =>
          obtain ⟨small, valid⟩ := mremapSmall _ rfl
          exact mremap_evolution sound small valid rfl
      | mprotect | munmap | madvise =>
          exact .still rfl rfl
  | mmap addr length prot flags fd offset =>
      exact mmap_evolution sound (mmapSmall _ rfl) rfl
  | mremap oldAddr oldSize newSize flags =>
      obtain ⟨small, valid⟩ := mremapSmall _ rfl
      exact mremap_evolution sound small valid rfl
  | munmap | mprotect | madvise =>
      exact .still rfl rfl
  | write address value =>
      exact .written rfl rfl

end Session

namespace Evolution

/-- The next page boundary is above the pages of every mapping. -/
theorem pages_below
    {session : Session}
    (sound : Sound session)
    {after : AddressSpace}
    {address length : UInt64}
    (placed : Placed session.libc.space after address length)
    {mapping : Mapping}
    (member : mapping ∈ session.mappings) :
    mapping.address.toNat + mapping.rounded ≤ address.toNat := by
  have page := sound.page member
  have top := sound.top member
  have start := placed.page
  unfold Mapping.rounded
  omega

/-- A range placed above all mappings keeps the invariant. -/
theorem sound_of_placed
    {before after : Session}
    (sound : Sound before)
    {address length : UInt64}
    (placed :
      Placed before.libc.space after.libc.space address length)
    (mappings : after.mappings = ⟨address, length⟩ :: before.mappings) :
    Sound after := by
  have within := sound.within
  have above := placed.above
  have top := placed.top
  exact {
    within := placed.within within
    page := by
      intro mapping member
      rw [mappings] at member
      rcases List.mem_cons.mp member with rfl | old
      · exact placed.aligned
      · exact sound.page old
    base := by
      intro mapping member
      rw [mappings] at member
      rcases List.mem_cons.mp member with rfl | old
      · exact Nat.le_trans within.1 above
      · exact sound.base old
    top := by
      intro mapping member
      rw [mappings] at member
      rcases List.mem_cons.mp member with rfl | old
      · exact Nat.le_of_eq top
      · have below := sound.top old
        omega
    apart := by
      rw [mappings, List.pairwise_cons]
      refine ⟨?_, sound.apart⟩
      intro mapping member
      exact .inr (pages_below sound placed member)
  }

/-- So does a mapping that gets shorter where it is. -/
theorem sound_of_shrunk
    {before after : Session}
    (sound : Sound before)
    {address oldSize newSize : UInt64}
    (member : (⟨address, oldSize⟩ : Mapping) ∈ before.mappings)
    (shrinks : newSize ≤ oldSize)
    (space : after.libc.space = before.libc.space)
    (mappings :
      after.mappings =
        ⟨address, newSize⟩ ::
          before.mappings.erase ⟨address, oldSize⟩) :
    Sound after := by
  have split := List.perm_cons_erase member
  have oldApart :
      (⟨address, oldSize⟩ ::
        before.mappings.erase ⟨address, oldSize⟩).Pairwise
          Mapping.Apart :=
    (split.pairwise_iff Mapping.Apart.symm).mp sound.apart
  obtain ⟨headApart, tailApart⟩ := List.pairwise_cons.mp oldApart
  have smaller := UInt64.le_iff_toNat_le.mp shrinks
  exact {
    within := by
      unfold Session.Within
      rw [space]
      exact sound.within
    page := by
      intro mapping inAfter
      rw [mappings] at inAfter
      rcases List.mem_cons.mp inAfter with rfl | old
      · have aligned := sound.page member
        exact aligned
      · exact sound.page (List.mem_of_mem_erase old)
    base := by
      intro mapping inAfter
      rw [mappings] at inAfter
      rcases List.mem_cons.mp inAfter with rfl | old
      · have above := sound.base member
        exact above
      · exact sound.base (List.mem_of_mem_erase old)
    top := by
      intro mapping inAfter
      rw [mappings] at inAfter
      rw [space]
      rcases List.mem_cons.mp inAfter with rfl | old
      · have below := sound.top member
        simp only at below ⊢
        omega
      · exact sound.top (List.mem_of_mem_erase old)
    apart := by
      rw [mappings, List.pairwise_cons]
      refine ⟨?_, tailApart⟩
      intro mapping old
      have apart := headApart mapping old
      have shorter :
          Mapping.rounded ⟨address, newSize⟩ ≤
            Mapping.rounded ⟨address, oldSize⟩ :=
        Mapping.rounded_le shrinks
      unfold Mapping.Apart at apart ⊢
      simp only at apart ⊢
      omega
  }

/-- Every evolution keeps the invariant. -/
theorem sound_after
    {before after : Session}
    (sound : Sound before)
    (evolution : Evolution before after) :
    Sound after := by
  cases evolution with
  | still space mappings =>
      exact sound.of_same (by rw [space]) mappings
  | placed placed mappings =>
      exact sound_of_placed sound placed mappings
  | shrunk member shrinks space mappings =>
      exact sound_of_shrunk sound member shrinks space mappings
  | written space mappings =>
      exact sound.of_same (by rw [space]) mappings

end Evolution

/-- At boot there are no mappings. -/
theorem sound_initial (ram : Memory) (errno : Int64) :
    Sound (Session.initial ram errno) where
  within := by
    refine ⟨Nat.le_refl _, ?_⟩
    change mmapBase.toNat ≤ mmapLimit.toNat
    decide
  page := by simp [Session.initial]
  base := by simp [Session.initial]
  top := by simp [Session.initial]
  apart := List.Pairwise.nil

/-- Every run from boot is sound. -/
theorem sound_run
    {ram : Memory}
    {errno : Int64}
    {requests : List Request}
    (admissible :
      clients.Admissible (Session.initial ram errno) requests) :
    Sound (clients.run (Session.initial ram errno) requests) :=
  clients.run_invariant
    (fun sound admitted =>
      (Session.step_evolution sound admitted).sound_after sound)
    (sound_initial ram errno) admissible

/-! ## What a request leaves in memory -/

/-- The pages of a mapping lie between the bounds of the mapping area. -/
theorem Sound.pages_subset
    {session : Session}
    (sound : Sound session)
    {mapping : Mapping}
    (member : mapping ∈ session.mappings) :
    mapping.pages ⊆ Set.Ico mmapBase.toNat mmapLimit.toNat := by
  intro address inside
  have page := sound.page member
  have base := sound.base member
  have top := sound.top member
  have bound :
      session.libc.space.mmapNext.toNat ≤ mmapLimit.toNat :=
    sound.within.2
  have limit : mmapLimit.toNat = 0x1F000000 := rfl
  simp only [Mapping.pages, Mapping.rounded, Set.mem_Ico] at inside ⊢
  omega

/-- Placing a range keeps the bytes of every mapping. -/
theorem Sound.placed_keeps
    {session : Session}
    (sound : Sound session)
    {after : AddressSpace}
    {address length : UInt64}
    (placed : Placed session.libc.space after address length)
    {mapping : Mapping}
    (member : mapping ∈ session.mappings) :
    Memory.SameOn after.ram session.ram
      mapping.address.toNat mapping.length.toNat := by
  intro query low high
  have below := Evolution.pages_below sound placed member
  have length := mapping.length_le_rounded
  exact placed.frame query (by omega)

/-- A request for new pages reports its refusal or a fresh range. -/
theorem mmap_reports
    {session : Session}
    {request : Request}
    {length : UInt64}
    {prot : Int32}
    (sound : Sound session)
    (small : length.toNat < 2 ^ 63)
    (shape : request.mmap? = some (length, prot)) :
    let outcome := session.step request
    (outcome.1.address? = none ∧
        outcome.2.libc.space = session.libc.space ∧
        outcome.2.mappings = session.mappings ∧
        Session.RefusedBy request outcome.1 outcome.2.libc.errno) ∨
      ∃ address,
        outcome.1.address? = some address ∧
          Placed session.libc.space outcome.2.libc.space
            address length ∧
          (prot &&& 3 ≠ 0 →
            ∀ index,
              index < length.toNat →
              outcome.2.ram (address.toNat + index) = 0) := by
  intro outcome
  obtain ⟨addr, flags, fd, offset, stepShape⟩ :=
    Session.step_mmap sound.within shape
  have result :=
    sysMmap_outcome sound.within small addr prot flags fd offset
  simp only [outcome, stepShape]
  generalize
    sysMmap session.libc.space addr length prot flags fd offset = pair
    at result
  cases result with
  | refused =>
      exact .inl (session.settle_refused request)
  | @placed after address placed zeroed =>
      obtain ⟨answered, space, -⟩ :=
        session.settle_address request after placed.low
      refine .inr ⟨address, answered, ?_, ?_⟩
      · rw [space]
        exact placed
      · intro readable index inside
        simp only [Session.ram, space]
        exact zeroed readable index inside

/-- The bytes a successful resize leaves at the address it reports. -/
structure Resized
    (before after : Session)
    (oldAddr oldSize newSize address : UInt64) : Prop where
  fresh :
    IsErrorValue oldAddr →
    ∀ index,
      index < newSize.toNat →
      after.ram (address.toNat + index) = 0
  kept :
    ¬IsErrorValue oldAddr →
    newSize ≤ oldSize →
    address = oldAddr ∧ after.libc.space = before.libc.space
  copied :
    ¬IsErrorValue oldAddr →
    oldSize < newSize →
    ∀ index,
      index < oldSize.toNat →
      after.ram (address.toNat + index) =
        before.ram (oldAddr.toNat + index)
  zeroed :
    ¬IsErrorValue oldAddr →
    oldSize < newSize →
    ∀ index,
      oldSize.toNat ≤ index →
      index < newSize.toNat →
      after.ram (address.toNat + index) = 0
  others :
    ∀ mapping ∈ before.mappings,
      Memory.SameOn after.ram before.ram
        mapping.address.toNat mapping.length.toNat

/-- A request to resize reports its refusal or a resized range. -/
theorem mremap_reports
    {session : Session}
    {request : Request}
    {oldAddr oldSize newSize : UInt64}
    (sound : Sound session)
    (small : newSize.toNat < 2 ^ 63)
    (valid :
      IsErrorValue oldAddr ∨
        (⟨oldAddr, oldSize⟩ : Mapping) ∈ session.mappings)
    (shape : request.mremap? = some (oldAddr, oldSize, newSize)) :
    let outcome := session.step request
    (outcome.1.address? = none ∧
        outcome.2.libc.space = session.libc.space ∧
        outcome.2.mappings = session.mappings ∧
        Session.RefusedBy request outcome.1 outcome.2.libc.errno) ∨
      ∃ address,
        outcome.1.address? = some address ∧
          Resized session outcome.2
            oldAddr oldSize newSize address := by
  intro outcome
  obtain ⟨flags, stepShape⟩ :=
    Session.step_mremap sound.within shape
  have result :=
    sysMremap_outcome sound.within small oldAddr oldSize flags
  simp only [outcome, stepShape]
  generalize
    sysMremap session.libc.space oldAddr oldSize newSize flags = pair
    at result
  cases result with
  | refused =>
      exact .inl (session.settle_refused request)
  | @fresh after address error placed zeroed =>
      obtain ⟨answered, space, -⟩ :=
        session.settle_address request after placed.low
      refine .inr ⟨address, answered, {
        fresh := fun _ index inside => ?_
        kept := fun noError => (noError error).elim
        copied := fun noError => (noError error).elim
        zeroed := fun noError => (noError error).elim
        others := fun mapping member => ?_
      }⟩
      · simp only [Session.ram, space]
        exact zeroed index inside
      · simp only [Session.ram, space]
        exact sound.placed_keeps placed member
  | kept noError shrinks =>
      have member := valid.resolve_left noError
      obtain ⟨answered, space, -⟩ :=
        session.settle_address request session.libc.space
          (sound.low member)
      have noGrowth : ¬oldSize < newSize :=
        UInt64.not_lt.mpr shrinks
      refine .inr ⟨oldAddr, answered, {
        fresh := fun error => (noError error).elim
        kept := fun _ _ => ⟨rfl, space⟩
        copied := fun _ grows => (noGrowth grows).elim
        zeroed := fun _ grows => (noGrowth grows).elim
        others := fun mapping member query _ _ => ?_
      }⟩
      simp only [Session.ram, space]
  | @moved after address noError grows placed copied zeroed =>
      have member := valid.resolve_left noError
      obtain ⟨answered, space, -⟩ :=
        session.settle_address request after placed.low
      -- The old range is a mapping, so it ends below the new one.
      have below : oldAddr.toNat + oldSize.toNat ≤ address.toNat := by
        have pages := Evolution.pages_below sound placed member
        have length :=
          (⟨oldAddr, oldSize⟩ : Mapping).length_le_rounded
        simp only at pages length
        omega
      refine .inr ⟨address, answered, {
        fresh := fun error => (noError error).elim
        kept := fun _ shrinks =>
          absurd grows (UInt64.not_lt.mpr shrinks)
        copied := fun _ _ index inside => ?_
        zeroed := fun _ _ index low high => ?_
        others := fun mapping inBefore => ?_
      }⟩
      · simp only [Session.ram, space]
        exact copied below index inside
      · simp only [Session.ram, space]
        exact zeroed index low high
      · simp only [Session.ram, space]
        exact sound.placed_keeps placed inBefore

/--
In every run that mixes the two layers, from any contents of RAM, after each
request: the mappings are page aligned, disjoint and inside the mapping area;
new readable or writable mappings are zero; growing copies the old bytes,
clears the rest and touches no other mapping; failures report `ENOMEM` and
change nothing; and the two versions of `mremap` agree in the state reached.
-/
theorem mappings_fresh_and_apart
    (ram : Memory)
    (errno : Int64)
    (requests : List Request)
    (request : Request)
    (admissible :
      clients.Admissible (Session.initial ram errno)
        (requests ++ [request])) :
    let before := clients.run (Session.initial ram errno) requests
    let response := (clients.step before request).1
    let after := (clients.step before request).2
    ((∀ mapping ∈ after.mappings,
          mapping.address.toNat % 4096 = 0 ∧
            mapping.pages ⊆ Set.Ico mmapBase.toNat mmapLimit.toNat) ∧
        after.mappings.Pairwise fun first second =>
          Disjoint first.pages second.pages) ∧
      (∀ length prot address,
        request.mmap? = some (length, prot) →
        response.address? = some address →
        (⟨address, length⟩ : Mapping) ∈ after.mappings ∧
          (prot &&& 3 ≠ 0 →
            ∀ index,
              index < length.toNat →
              after.ram (address.toNat + index) = 0)) ∧
      (∀ oldAddr oldSize newSize address,
        request.mremap? = some (oldAddr, oldSize, newSize) →
        response.address? = some address →
        Resized before after oldAddr oldSize newSize address) ∧
      (request.mmap?.isSome ∨ request.mremap?.isSome →
        response.address? = none →
        after.libc.space = before.libc.space ∧
          after.mappings = before.mappings ∧
          Session.RefusedBy request response after.libc.errno) ∧
      ∀ oldAddr oldSize newSize flags a5 a6,
        newSize.toNat < 2 ^ 63 →
        mremap before.libc oldAddr oldSize newSize flags =
          translate before.libc
            (rubyOnBareMetalSyscall before.libc.space .mremap
              oldAddr.toInt64 oldSize.toInt64 newSize.toInt64
              flags.toInt64 a5 a6) := by
  intro before response after
  obtain ⟨first, admitted, -⟩ :=
    clients.admissible_append.mp admissible
  have sound : Sound before := sound_run first
  have evolution : Evolution before after :=
    Session.step_evolution sound admitted
  have soundAfter : Sound after := evolution.sound_after sound
  refine ⟨⟨?_, ?_⟩, ?_, ?_, ?_, ?_⟩
  · intro mapping member
    exact ⟨soundAfter.page member, soundAfter.pages_subset member⟩
  · exact soundAfter.apart.imp Mapping.Apart.disjoint
  · intro length prot address asked answered
    have small := admitted.1 _ asked
    refine ⟨?_, ?_⟩
    · change _ ∈ recorded before.mappings request response
      rw [recorded_mmap asked answered]
      exact List.mem_cons_self
    · obtain ⟨nothing, -⟩ | ⟨other, same, -, zeroed⟩ :=
        mmap_reports sound small asked
      · exact absurd (nothing.symm.trans answered) (by simp)
      · cases same.symm.trans answered
        exact zeroed
  · intro oldAddr oldSize newSize address asked answered
    obtain ⟨small, valid⟩ := admitted.2.1 _ asked
    obtain ⟨nothing, -⟩ | ⟨other, same, resized⟩ :=
      mremap_reports sound small valid asked
    · exact absurd (nothing.symm.trans answered) (by simp)
    · cases same.symm.trans answered
      exact resized
  · intro pages failed
    rcases pages with asked | asked
    · obtain ⟨⟨length, prot⟩, shape⟩ := Option.isSome_iff_exists.mp asked
      obtain ⟨-, refusal⟩ | ⟨address, same, -⟩ :=
        mmap_reports sound (admitted.1 _ shape) shape
      · exact refusal
      · exact absurd (failed.symm.trans same) (by simp)
    · obtain ⟨⟨oldAddr, oldSize, newSize⟩, shape⟩ :=
        Option.isSome_iff_exists.mp asked
      obtain ⟨small, valid⟩ := admitted.2.1 _ shape
      obtain ⟨-, refusal⟩ | ⟨address, same, -⟩ :=
        mremap_reports sound small valid shape
      · exact refusal
      · exact absurd (failed.symm.trans same) (by simp)
  · intro oldAddr oldSize newSize flags a5 a6 small
    rw [mremap_eq_translate sound.within.2]
    simp [rubyOnBareMetalSyscall]

/--
A run over dirty RAM: an unaligned length through libc, a store, a shrink
through the system call and a growing `mremap` through libc.
-/
theorem mappings_fresh_and_apart_mixed :
    let session :=
      clients.run (Session.initial (fun _ => 0xCC) 0)
        [.mmap 0 5000 3 0x22 (-1) 0, .write 0x10000003 7,
          .syscall .mremap 0x10000000 5000 100 0 0 0,
          .munmap 0 0, .syscall .mmap 0 10 0 0 0 0]
    let after :=
      (clients.step session (.mremap 0x10000000 100 6000 0)).2
    after.mappings.Pairwise fun first second =>
      Disjoint first.pages second.pages :=
  (mappings_fresh_and_apart (fun _ => 0xCC) 0
    [.mmap 0 5000 3 0x22 (-1) 0, .write 0x10000003 7,
      .syscall .mremap 0x10000000 5000 100 0 0 0,
      .munmap 0 0, .syscall .mmap 0 10 0 0 0 0]
    (.mremap 0x10000000 100 6000 0)
    (by decide +kernel)).1.2

end RubyOnBareMetal.Mmap
