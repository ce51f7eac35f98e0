import RubyOnBareMetal.Mmap.Invariant

namespace RubyOnBareMetal.Mmap

open Foundation

/-!
# Anonymous memory over whole runs

`sys_mmap` clears what can be read or written and leaves a reservation as it
is; `mprotect` does nothing.  A ledger records for every byte what the clients
have asked for, from which follows which bytes hold what RAM held at boot.
-/

/-- What the clients have asked for at one address. -/
structure Standing where
  mapped : Bool
  readable : Bool
  writable : Bool
  reserved : Bool
  touched : Bool
  deriving Repr, DecidableEq

namespace Standing

/-- An address that was never handed out. -/
def outside : Standing where
  mapped := false
  readable := false
  writable := false
  reserved := false
  touched := false

/-- A new byte with the given protection. -/
def asked (prot : Int32) : Standing where
  mapped := true
  readable := prot &&& 1 ≠ 0
  writable := prot &&& 2 ≠ 0
  reserved := prot &&& 3 = 0
  touched := false

/-- A byte that was given back. -/
def released (standing : Standing) : Standing :=
  { standing with mapped := false }

/-- A byte whose protection changes; it has been readable if it ever was. -/
def protect (prot : Int32) (standing : Standing) : Standing :=
  { standing with
    readable := standing.readable || prot &&& 1 ≠ 0
    writable := prot &&& 2 ≠ 0 }

end Standing

/-- The bytes of a range. -/
def InRange (address length byte : Nat) : Prop :=
  address ≤ byte ∧ byte < address + length
  deriving Decidable

/-- The bytes of the pages that a range meets. -/
def Covers (address length byte : Nat) : Prop :=
  0 < length ∧
    address / 4096 ≤ byte / 4096 ∧
      byte / 4096 ≤ (address + length - 1) / 4096
  deriving Decidable

/-- A standing for every address. -/
abbrev Ledger := Nat → Standing

namespace Ledger

/-- Change the standing of the bytes of a set. -/
def alter
    (ledger : Ledger)
    (inside : Nat → Prop)
    [DecidablePred inside]
    (change : Nat → Standing → Standing) : Ledger :=
  fun byte =>
    if inside byte then change byte (ledger byte) else ledger byte

/-- The ledger after a request for new pages. -/
def mmap
    (ledger : Ledger)
    (length : UInt64)
    (prot : Int32) :
    Option UInt64 → Ledger
  | none => ledger
  | some address =>
      ledger.alter (InRange address.toNat length.toNat)
        fun _ _ => .asked prot

/-- The ledger after a request to resize, which may move and copy. -/
def mremap
    (ledger : Ledger)
    (oldAddr oldSize newSize : UInt64) :
    Option UInt64 → Ledger
  | none => ledger
  | some address =>
      if IsErrorValue oldAddr then
        ledger.mmap newSize 3 (some address)
      else if newSize ≤ oldSize then
        ledger.alter
          (InRange (oldAddr.toNat + newSize.toNat)
            (oldSize.toNat - newSize.toNat))
          fun _ => .released
      else
        (ledger.alter (InRange oldAddr.toNat oldSize.toNat)
            fun _ => .released).alter
          (InRange address.toNat newSize.toNat)
          fun byte _ => {
            Standing.asked 3 with
            touched := byte < address.toNat + oldSize.toNat
          }

/-- The ledger after `munmap`. -/
def munmap (ledger : Ledger) (addr length : UInt64) : Ledger :=
  ledger.alter (Covers addr.toNat length.toNat) fun _ => .released

/-- The ledger after `mprotect`. -/
def mprotect (ledger : Ledger) (addr len : UInt64) (prot : Int32) :
    Ledger :=
  ledger.alter (Covers addr.toNat len.toNat) fun _ => .protect prot

/-- The ledger after a store. -/
def write (ledger : Ledger) (address : UInt64) : Ledger :=
  ledger.alter (· = address.toNat)
    fun _ standing => { standing with touched := true }

/-- A byte of a reservation that was never written. -/
def Uncleared (ledger : Ledger) (byte : Nat) : Prop :=
  (ledger byte).mapped = true ∧
    (ledger byte).reserved = true ∧
      (ledger byte).touched = false

/-- The ledger after a request and its response. -/
def after (ledger : Ledger) : Request → Response → Ledger
  | .syscall .mmap _ a2 a3 _ _ _, response =>
      ledger.mmap a2.toUInt64 a3.toInt32 response.address?
  | .syscall .mprotect a1 a2 a3 _ _ _, _ =>
      ledger.mprotect a1.toUInt64 a2.toUInt64 a3.toInt32
  | .syscall .munmap a1 a2 _ _ _ _, _ =>
      ledger.munmap a1.toUInt64 a2.toUInt64
  | .syscall .mremap a1 a2 a3 _ _ _, response =>
      ledger.mremap a1.toUInt64 a2.toUInt64 a3.toUInt64 response.address?
  | .syscall .madvise .., _ => ledger
  | .mmap _ length prot _ _ _, response =>
      ledger.mmap length prot response.address?
  | .mremap oldAddr oldSize newSize _, response =>
      ledger.mremap oldAddr oldSize newSize response.address?
  | .munmap addr length, _ => ledger.munmap addr length
  | .mprotect addr len prot, _ => ledger.mprotect addr len prot
  | .madvise .., _ => ledger
  | .write address _, _ => ledger.write address

end Ledger

/-- The range and protection of a request to change protections. -/
def Request.mprotect? : Request → Option (UInt64 × UInt64 × Int32)
  | .syscall .mprotect a1 a2 a3 _ _ _ =>
      some (a1.toUInt64, a2.toUInt64, a3.toInt32)
  | .mprotect addr len prot => some (addr, len, prot)
  | _ => none

/-- A session and the ledger of what its clients asked for. -/
structure Client where
  session : Session
  ledger : Ledger

namespace Client

/-- At boot nothing is mapped; RAM and `errno` hold anything. -/
def boot (ram : Memory) (errno : Int64) : Client where
  session := .initial ram errno
  ledger := fun _ => .outside

/-- The bytes of RAM. -/
def ram (client : Client) : Memory :=
  client.session.ram

/-- Run one request and enter it in the ledger. -/
def step (client : Client) (request : Request) : Response × Client :=
  let (response, session) := client.session.step request
  (response, {
    session := session
    ledger := client.ledger.after request response
  })

/-- Lengths stay below half of the address space; stores need permission. -/
def Admits (client : Client) (request : Request) : Prop :=
  (∀ asked ∈ request.mmap?, asked.1.toNat < 2 ^ 63) ∧
    (∀ asked ∈ request.mremap?, asked.2.2.toNat < 2 ^ 63) ∧
    match request with
    | .write address _ =>
        (client.ledger address.toNat).mapped = true ∧
          (client.ledger address.toNat).writable = true
    | _ => True

instance (client : Client) (request : Request) :
    Decidable (client.Admits request) :=
  @instDecidableAnd _ _
    (Option.decidableForallMem request.mmap?)
    (@instDecidableAnd _ _
      (Option.decidableForallMem request.mremap?)
      (match request with
        | .write address _ =>
            inferInstanceAs
              (Decidable
                ((client.ledger address.toNat).mapped = true ∧
                  (client.ledger address.toNat).writable = true))
        | .syscall .. | .mmap .. | .mremap .. | .munmap ..
        | .mprotect .. | .madvise .. =>
            inferInstanceAs (Decidable True)))

/-- What has become readable and was left alone reads as zero. -/
def Fresh (client : Client) : Prop :=
  ∀ byte,
    (client.ledger byte).mapped = true →
    (client.ledger byte).readable = true →
    (client.ledger byte).touched = false →
    client.ram byte = 0

/-- A request makes a byte of a reservation readable. -/
def Exposes (client : Client) (request : Request) (byte : Nat) : Prop :=
  client.ledger.Uncleared byte ∧
    ∃ addr len prot,
      request.mprotect? = some (addr, len, prot) ∧
        prot &&& 1 ≠ 0 ∧ Covers addr.toNat len.toNat byte

end Client

/-- Clients that ask for pages and store where they may. -/
def pageClients : Machine Client Request Response where
  step := Client.step
  admits := Client.Admits

instance (client : Client) (request : Request) :
    Decidable (pageClients.admits client request) :=
  inferInstanceAs (Decidable (client.Admits request))

/-- The promise that only zero bytes of `ram` are exposed. -/
def carefulClients (ram : Memory) : Machine Client Request Response where
  step := Client.step
  admits client request :=
    ∀ byte, client.Exposes request byte → ram byte = 0

/-! ## What the ledger knows about RAM -/

/-- What is left of a reservation cannot be read. -/
theorem Standing.not_readable_of_reserved
    {prot : Int32}
    (reserved : (asked prot).reserved = true) :
    (asked prot).readable = false := by
  have none : prot &&& 3 = 0 := by simpa [asked] using reserved
  have readBit : prot &&& 1 = (prot &&& 3) &&& 1 := by
    rw [Int32.and_assoc]
    rfl
  simp [asked, readBit, none]

/-- A reservation leaves RAM as it is. -/
theorem sysMmap_reserved
    {prot : Int32}
    (reserved : prot &&& 3 = 0)
    (state : AddressSpace)
    (addr length : UInt64)
    (flags fd : Int32)
    (offset : Int64) :
    (sysMmap state addr length prot flags fd offset).2.ram =
      state.ram := by
  unfold sysMmap
  dsimp only
  split
  · rfl
  · simp [reserved]

/--
What is mapped lies below the cursor and, if it is untouched, is zero or what
it was at boot; what lies above the cursor is what it was at boot.
-/
structure Booked (ram : Memory) (client : Client) : Prop where
  within :
    client.session.Within
  below :
    ∀ {byte},
      (client.ledger byte).mapped = true →
      byte < client.session.libc.space.mmapNext.toNat
  untouched :
    ∀ {byte},
      (client.ledger byte).mapped = true →
      (client.ledger byte).touched = false →
      client.ram byte =
        if (client.ledger byte).reserved then ram byte else 0
  above :
    ∀ {byte},
      client.session.libc.space.mmapNext.toNat ≤ byte →
      client.ram byte = ram byte

namespace Booked

variable {ram : Memory} {client after : Client}

/-- A request that hands out nothing and changes only touched bytes. -/
theorem kept
    (booked : Booked ram client)
    (cursor :
      after.session.libc.space.mmapNext =
        client.session.libc.space.mmapNext)
    (mapped :
      ∀ {byte},
        (after.ledger byte).mapped = true →
        (client.ledger byte).mapped = true)
    (untouched :
      ∀ {byte},
        (after.ledger byte).mapped = true →
        (after.ledger byte).touched = false →
        (client.ledger byte).touched = false ∧
          (after.ledger byte).reserved =
              (client.ledger byte).reserved ∧
            after.ram byte = client.ram byte)
    (above :
      ∀ {byte},
        client.session.libc.space.mmapNext.toNat ≤ byte →
        after.ram byte = client.ram byte) :
    Booked ram after where
  within := by
    unfold Session.Within AddressSpace.Within
    rw [cursor]
    exact booked.within
  below := by
    intro byte isMapped
    rw [cursor]
    exact booked.below (mapped isMapped)
  untouched := by
    intro byte isMapped isUntouched
    obtain ⟨wasUntouched, sameReserved, sameByte⟩ :=
      untouched isMapped isUntouched
    rw [sameByte, sameReserved]
    exact booked.untouched (mapped isMapped) wasUntouched
  above := by
    intro byte high
    rw [cursor] at high
    exact (above high).trans (booked.above high)

/-- A request that hands out a range and leaves the other bytes alone. -/
theorem placed
    {address length : UInt64}
    (booked : Booked ram client)
    (placed :
      Placed client.session.libc.space after.session.libc.space
        address length)
    (inside :
      ∀ {byte},
        InRange address.toNat length.toNat byte →
        (after.ledger byte).touched = false →
        after.ram byte =
          if (after.ledger byte).reserved then ram byte else 0)
    (outside :
      ∀ {byte},
        ¬InRange address.toNat length.toNat byte →
        (after.ledger byte).mapped = true →
        after.ledger byte = client.ledger byte) :
    Booked ram after := by
  have start := placed.above
  have top := placed.top
  exact {
    within := placed.within booked.within
    below := by
      intro byte isMapped
      by_cases new : InRange address.toNat length.toNat byte
      · have high := new.2
        omega
      · have same := outside new isMapped
        rw [same] at isMapped
        have low := booked.below isMapped
        omega
    untouched := by
      intro byte isMapped isUntouched
      by_cases new : InRange address.toNat length.toNat byte
      · exact inside new isUntouched
      · have same := outside new isMapped
        rw [same] at isMapped isUntouched ⊢
        have low := booked.below isMapped
        have sameByte : after.ram byte = client.ram byte :=
          placed.frame byte (.inl (by omega))
        rw [sameByte]
        exact booked.untouched isMapped isUntouched
    above := by
      intro byte high
      have sameByte : after.ram byte = client.ram byte :=
        placed.frame byte (.inr (by omega))
      rw [sameByte]
      exact booked.above (by omega)
  }

end Booked

namespace Ledger

variable (ledger : Ledger)

theorem alter_inside
    {inside : Nat → Prop}
    [DecidablePred inside]
    {byte : Nat}
    (change : Nat → Standing → Standing)
    (isInside : inside byte) :
    ledger.alter inside change byte = change byte (ledger byte) := by
  simp [alter, isInside]

theorem alter_outside
    {inside : Nat → Prop}
    [DecidablePred inside]
    {byte : Nat}
    (change : Nat → Standing → Standing)
    (isOutside : ¬inside byte) :
    ledger.alter inside change byte = ledger byte := by
  simp [alter, isOutside]

/-- A byte that is still mapped has not been given back. -/
theorem alter_released
    {inside : Nat → Prop}
    [DecidablePred inside]
    {byte : Nat}
    (isMapped :
      (ledger.alter inside (fun _ => .released) byte).mapped = true) :
    ledger.alter inside (fun _ => .released) byte = ledger byte := by
  by_cases isInside : inside byte
  · simp [ledger.alter_inside _ isInside, Standing.released] at isMapped
  · exact ledger.alter_outside _ isInside

/-- A change of protection is all that `mprotect` is on record for. -/
theorem mprotect_keeps
    (addr len : UInt64)
    (prot : Int32)
    (byte : Nat) :
    (ledger.mprotect addr len prot byte).mapped = (ledger byte).mapped ∧
      (ledger.mprotect addr len prot byte).reserved =
          (ledger byte).reserved ∧
        (ledger.mprotect addr len prot byte).touched =
          (ledger byte).touched := by
  unfold mprotect alter
  split
  · exact ⟨rfl, rfl, rfl⟩
  · exact ⟨rfl, rfl, rfl⟩

/-- Only the pages it covers become readable, if they were not. -/
theorem mprotect_readable
    {addr len : UInt64}
    {prot : Int32}
    {byte : Nat}
    (readable : (ledger.mprotect addr len prot byte).readable = true)
    (was : ¬(ledger byte).readable = true) :
    Covers addr.toNat len.toNat byte ∧ prot &&& 1 ≠ 0 := by
  by_cases covered : Covers addr.toNat len.toNat byte
  · rw [mprotect, ledger.alter_inside _ covered] at readable
    refine ⟨covered, ?_⟩
    simpa [Standing.protect, was] using readable
  · rw [mprotect, ledger.alter_outside _ covered] at readable
    exact absurd readable was

theorem write_same (address : UInt64) :
    (ledger.write address address.toNat).touched = true := by
  simp [write, alter]

theorem write_other
    {address : UInt64}
    {byte : Nat}
    (different : byte ≠ address.toNat) :
    ledger.write address byte = ledger byte := by
  simp [write, alter, different]

end Ledger

namespace Client

variable {ram : Memory} {client : Client}

/-- A step reports to the ledger what the session answers. -/
theorem step_settle
    {request : Request}
    {result : Int64 × AddressSpace}
    (settles :
      client.session.step request =
        client.session.settle request result) :
    (client.step request).2 = {
      session := (client.session.settle request result).2
      ledger :=
        client.ledger.after request
          (client.session.settle request result).1
    } := by
  simp only [step, settles]

/-- A refused request changes neither RAM nor the ledger. -/
theorem booked_refused
    {request : Request}
    (booked : Booked ram client)
    (settles :
      client.session.step request =
        client.session.settle request
          (-Errno.ENOMEM, client.session.libc.space))
    (unchanged :
      ∀ {response : Response},
        response.address? = none →
        client.ledger.after request response = client.ledger) :
    Booked ram (client.step request).2 := by
  obtain ⟨nothing, space, -, -⟩ :=
    client.session.settle_refused request
  rw [step_settle settles, unchanged nothing]
  refine booked.kept ?_ id ?_ ?_
  · simp only [space]
  · intro byte isMapped isUntouched
    refine ⟨isUntouched, rfl, ?_⟩
    simp only [Client.ram, Session.ram, space]
  · intro byte high
    simp only [Client.ram, Session.ram, space]

/-- A request for new pages keeps the books. -/
theorem booked_mmap
    {request : Request}
    {length : UInt64}
    {prot : Int32}
    (booked : Booked ram client)
    (small : length.toNat < 2 ^ 63)
    (shape : request.mmap? = some (length, prot))
    (entry :
      ∀ response,
        client.ledger.after request response =
          client.ledger.mmap length prot response.address?) :
    Booked ram (client.step request).2 := by
  obtain ⟨addr, flags, fd, offset, settles⟩ :=
    Session.step_mmap booked.within shape
  have outcome :=
    sysMmap_outcome booked.within small addr prot flags fd offset
  have uncleared (reserved : prot &&& 3 = 0) :=
    sysMmap_reserved reserved client.session.libc.space
      addr length flags fd offset
  generalize
    sysMmap client.session.libc.space addr length prot flags fd offset =
      result at settles outcome uncleared
  cases outcome with
  | refused =>
      exact booked_refused booked settles fun nothing => by
        rw [entry, nothing, Ledger.mmap]
  | @placed space address placed zeroed =>
      obtain ⟨answered, sameSpace, -⟩ :=
        client.session.settle_address request space placed.low
      rw [step_settle settles, entry, answered, Ledger.mmap]
      refine booked.placed (sameSpace.symm ▸ placed) ?_ ?_
      · intro byte new isUntouched
        simp only [Client.ram, Session.ram, sameSpace,
          client.ledger.alter_inside _ new]
        obtain ⟨index, rfl⟩ := Nat.exists_eq_add_of_le new.1
        have inside : index < length.toNat := by
          have high := new.2
          omega
        by_cases reserved : prot &&& 3 = 0
        · have high := placed.above
          simp only [Standing.asked, reserved, decide_true, ↓reduceIte]
          rw [uncleared reserved]
          exact booked.above (by omega)
        · simp only [Standing.asked, reserved, decide_false]
          exact zeroed reserved index inside
      · intro byte old isMapped
        simp only [client.ledger.alter_outside _ old]

/-- A request that only gives bytes back keeps the books. -/
theorem booked_released
    {ledger : Ledger}
    {session : Session}
    (booked : Booked ram client)
    (space : session.libc.space = client.session.libc.space)
    (fewer :
      ∀ {byte},
        (ledger byte).mapped = true →
        ledger byte = client.ledger byte) :
    Booked ram ⟨session, ledger⟩ := by
  refine booked.kept ?_ ?_ ?_ ?_
  · simp only [space]
  · intro byte isMapped
    exact fewer isMapped ▸ isMapped
  · intro byte isMapped isUntouched
    refine ⟨fewer isMapped ▸ isUntouched, ?_, ?_⟩
    · simp only [fewer isMapped]
    · simp only [Client.ram, Session.ram, space]
  · intro byte high
    simp only [Client.ram, Session.ram, space]

/-- A request to resize keeps the books. -/
theorem booked_mremap
    {request : Request}
    {oldAddr oldSize newSize : UInt64}
    (booked : Booked ram client)
    (small : newSize.toNat < 2 ^ 63)
    (shape : request.mremap? = some (oldAddr, oldSize, newSize))
    (entry :
      ∀ response,
        client.ledger.after request response =
          client.ledger.mremap oldAddr oldSize newSize
            response.address?) :
    Booked ram (client.step request).2 := by
  have notReserved : (Standing.asked 3).reserved = false := by decide
  obtain ⟨flags, settles⟩ :=
    Session.step_mremap booked.within shape
  have outcome :=
    sysMremap_outcome booked.within small oldAddr oldSize flags
  generalize
    sysMremap client.session.libc.space oldAddr oldSize newSize flags =
      result at settles outcome
  cases outcome with
  | refused =>
      exact booked_refused booked settles fun nothing => by
        rw [entry, nothing, Ledger.mremap]
  | @fresh space address error placed zeroed =>
      obtain ⟨answered, sameSpace, -⟩ :=
        client.session.settle_address request space placed.low
      rw [step_settle settles, entry, answered]
      simp only [Ledger.mremap, error, ↓reduceIte, Ledger.mmap]
      refine booked.placed (sameSpace.symm ▸ placed) ?_ ?_
      · intro byte new isUntouched
        simp only [Client.ram, Session.ram, sameSpace,
          client.ledger.alter_inside _ new, notReserved]
        obtain ⟨index, rfl⟩ := Nat.exists_eq_add_of_le new.1
        exact zeroed index (by have high := new.2; omega)
      · intro byte old isMapped
        simp only [client.ledger.alter_outside _ old]
  | kept noError shrinks =>
      rw [step_settle settles, entry]
      refine booked_released booked
        (client.session.settle_space request _) ?_
      intro byte isMapped
      cases answer :
          (client.session.settle request
            (oldAddr.toInt64, client.session.libc.space)).1.address? with
      | none =>
          simp only [Ledger.mremap]
      | some address =>
          rw [answer] at isMapped
          simp only [Ledger.mremap, noError, shrinks, ↓reduceIte]
            at isMapped ⊢
          exact client.ledger.alter_released isMapped
  | @moved space address noError grows placed copied zeroed =>
      have notShrinks : ¬newSize ≤ oldSize := UInt64.not_le.mpr grows
      obtain ⟨answered, sameSpace, -⟩ :=
        client.session.settle_address request space placed.low
      rw [step_settle settles, entry, answered]
      simp only [Ledger.mremap, noError, notShrinks, ↓reduceIte]
      refine booked.placed (sameSpace.symm ▸ placed) ?_ ?_
      · intro byte new isUntouched
        simp only [Ledger.alter_inside _ _ new, decide_eq_false_iff_not,
          Nat.not_lt] at isUntouched
        simp only [Client.ram, Session.ram, sameSpace,
          Ledger.alter_inside _ _ new, notReserved]
        obtain ⟨index, rfl⟩ := Nat.exists_eq_add_of_le new.1
        have high := new.2
        exact zeroed index (by omega) (by omega)
      · intro byte old isMapped
        simp only [Ledger.alter_outside _ _ old] at isMapped ⊢
        exact client.ledger.alter_released isMapped

/-- A change of protection keeps the books. -/
theorem booked_mprotect
    (booked : Booked ram client)
    (addr len : UInt64)
    (prot : Int32) :
    Booked ram ⟨client.session, client.ledger.mprotect addr len prot⟩ := by
  have keeps := client.ledger.mprotect_keeps addr len prot
  refine booked.kept rfl ?_ ?_ fun _ => rfl
  · intro byte isMapped
    exact (keeps byte).1 ▸ isMapped
  · intro byte isMapped isUntouched
    exact ⟨(keeps byte).2.2 ▸ isUntouched, (keeps byte).2.1, rfl⟩

/-- A store to a mapped byte keeps the books. -/
theorem booked_write
    {address : UInt64}
    {value : UInt8}
    (booked : Booked ram client)
    (isMapped : (client.ledger address.toNat).mapped = true) :
    Booked ram (client.step (.write address value)).2 := by
  have low := booked.below isMapped
  change Booked ram ⟨_, client.ledger.write address⟩
  refine booked.kept rfl ?_ ?_ ?_
  · intro byte mappedAfter
    by_cases same : byte = address.toNat
    · exact same ▸ isMapped
    · exact client.ledger.write_other same ▸ mappedAfter
  · intro byte mappedAfter isUntouched
    have different : byte ≠ address.toNat := by
      rintro rfl
      cases isUntouched.symm.trans (client.ledger.write_same address)
    refine ⟨client.ledger.write_other different ▸ isUntouched, ?_, ?_⟩
    · exact congrArg Standing.reserved (client.ledger.write_other different)
    · exact Memory.write_other _ value different
  · intro byte high
    exact Memory.write_other _ value (by omega)

/-- Every admitted request keeps the books. -/
theorem booked_step
    {request : Request}
    (booked : Booked ram client)
    (admitted : pageClients.admits client request) :
    Booked ram (client.step request).2 := by
  obtain ⟨mmapSmall, mremapSmall, mayStore⟩ := admitted
  have released (addr length : UInt64) :
      Booked ram ⟨client.session, client.ledger.munmap addr length⟩ :=
    booked_released booked rfl (Ledger.alter_released _)
  cases request with
  | syscall n a1 a2 a3 a4 a5 a6 =>
      cases n with
      | mmap =>
          exact booked_mmap booked (mmapSmall _ rfl) rfl fun _ => rfl
      | mremap =>
          exact booked_mremap booked (mremapSmall _ rfl) rfl fun _ => rfl
      | mprotect =>
          exact booked_mprotect booked _ _ _
      | munmap =>
          exact released _ _
      | madvise =>
          exact booked
  | mmap addr length prot flags fd offset =>
      exact booked_mmap booked (mmapSmall _ rfl) rfl fun _ => rfl
  | mremap oldAddr oldSize newSize flags =>
      exact booked_mremap booked (mremapSmall _ rfl) rfl fun _ => rfl
  | munmap =>
      exact released _ _
  | mprotect =>
      exact booked_mprotect booked _ _ _
  | madvise =>
      exact booked
  | write address value =>
      exact booked_write booked mayStore.1

/-! ## Reservations that become readable -/

/-- A byte of a reservation that has become readable. -/
def Exposed (ledger : Ledger) (byte : Nat) : Prop :=
  ledger.Uncleared byte ∧ (ledger byte).readable = true

/-- New pages are reserved or readable, not both. -/
theorem exposed_of_mmap
    {ledger : Ledger}
    {length : UInt64}
    {prot : Int32}
    {address? : Option UInt64}
    {byte : Nat}
    (exposed : Exposed (ledger.mmap length prot address?) byte) :
    Exposed ledger byte := by
  cases address? with
  | none =>
      exact exposed
  | some address =>
      by_cases new : InRange address.toNat length.toNat byte
      · obtain ⟨⟨-, reserved, -⟩, readable⟩ := exposed
        rw [Ledger.mmap, ledger.alter_inside _ new] at reserved readable
        cases readable.symm.trans
          (Standing.not_readable_of_reserved reserved)
      · simpa only [Exposed, Ledger.Uncleared, Ledger.mmap, ledger.alter_outside _ new]
          using exposed

/-- What was given back is not exposed. -/
theorem exposed_of_released
    {ledger : Ledger}
    {inside : Nat → Prop}
    [DecidablePred inside]
    {byte : Nat}
    (exposed : Exposed (ledger.alter inside fun _ => .released) byte) :
    Exposed ledger byte := by
  have same := ledger.alter_released exposed.1.1
  simpa only [Exposed, Ledger.Uncleared, same] using exposed

/-- What `mremap` hands out is not reserved. -/
theorem exposed_of_mremap
    {ledger : Ledger}
    {oldAddr oldSize newSize : UInt64}
    {address? : Option UInt64}
    {byte : Nat}
    (exposed :
      Exposed (ledger.mremap oldAddr oldSize newSize address?) byte) :
    Exposed ledger byte := by
  cases address? with
  | none =>
      exact exposed
  | some address =>
      simp only [Ledger.mremap] at exposed
      split at exposed
      · exact exposed_of_mmap exposed
      · split at exposed
        · exact exposed_of_released exposed
        · by_cases new : InRange address.toNat newSize.toNat byte
          · have reserved := exposed.1.2.1
            rw [Ledger.alter_inside _ _ new] at reserved
            have notReserved : (Standing.asked 3).reserved = false := rfl
            cases reserved.symm.trans notReserved
          · have old :
                Exposed
                  (ledger.alter (InRange oldAddr.toNat oldSize.toNat)
                    fun _ => .released)
                  byte := by
              simpa only [Exposed, Ledger.Uncleared,
                Ledger.alter_outside _ _ new] using exposed
            exact exposed_of_released old

/-- A store exposes nothing. -/
theorem exposed_of_write
    {ledger : Ledger}
    {address : UInt64}
    {byte : Nat}
    (exposed : Exposed (ledger.write address) byte) :
    Exposed ledger byte := by
  by_cases same : byte = address.toNat
  · subst same
    cases exposed.1.2.2.symm.trans (ledger.write_same address)
  · simpa only [Exposed, Ledger.Uncleared, ledger.write_other same]
      using exposed

/-- A request exposes what `mprotect` makes readable. -/
theorem exposed_step
    {request : Request}
    {byte : Nat}
    (exposed : Exposed (client.step request).2.ledger byte) :
    Exposed client.ledger byte ∨ client.Exposes request byte := by
  have changed
      {addr len : UInt64}
      {prot : Int32}
      (shape : request.mprotect? = some (addr, len, prot))
      (exposed : Exposed (client.ledger.mprotect addr len prot) byte) :
      Exposed client.ledger byte ∨ client.Exposes request byte := by
    obtain ⟨⟨isMapped, reserved, isUntouched⟩, readable⟩ := exposed
    obtain ⟨sameMapped, sameReserved, sameTouched⟩ :=
      client.ledger.mprotect_keeps addr len prot byte
    rw [sameMapped] at isMapped
    rw [sameReserved] at reserved
    rw [sameTouched] at isUntouched
    by_cases was : (client.ledger byte).readable = true
    · exact .inl ⟨⟨isMapped, reserved, isUntouched⟩, was⟩
    · obtain ⟨covered, read⟩ :=
        client.ledger.mprotect_readable readable was
      exact .inr ⟨⟨isMapped, reserved, isUntouched⟩,
        addr, len, prot, shape, read, covered⟩
  cases request with
  | syscall n a1 a2 a3 a4 a5 a6 =>
      cases n with
      | mmap => exact .inl (exposed_of_mmap exposed)
      | mremap => exact .inl (exposed_of_mremap exposed)
      | mprotect => exact changed rfl exposed
      | munmap => exact .inl (exposed_of_released exposed)
      | madvise => exact .inl exposed
  | mmap addr length prot flags fd offset =>
      exact .inl (exposed_of_mmap exposed)
  | mremap oldAddr oldSize newSize flags =>
      exact .inl (exposed_of_mremap exposed)
  | munmap => exact .inl (exposed_of_released exposed)
  | mprotect => exact changed rfl exposed
  | madvise => exact .inl exposed
  | write address value => exact .inl (exposed_of_write exposed)

/-- What a request exposes is exposed after it. -/
theorem exposed_of_exposes
    {request : Request}
    {byte : Nat}
    (exposes : client.Exposes request byte) :
    Exposed (client.step request).2.ledger byte := by
  obtain ⟨uncleared, addr, len, prot, shape, read, covered⟩ := exposes
  have changed :
      Exposed (client.ledger.mprotect addr len prot) byte := by
    obtain ⟨sameMapped, sameReserved, sameTouched⟩ :=
      client.ledger.mprotect_keeps addr len prot byte
    refine ⟨?_, ?_⟩
    · simpa only [Ledger.Uncleared, sameMapped, sameReserved, sameTouched]
        using uncleared
    · rw [Ledger.mprotect, Ledger.alter_inside _ _ covered]
      simp [Standing.protect, read]
  cases request with
  | syscall n a1 a2 a3 a4 a5 a6 =>
      cases n <;> cases shape
      exact changed
  | mprotect =>
      cases shape
      exact changed
  | _ =>
      cases shape

/-- Exactly what is exposed may read as something else than zero. -/
theorem fresh_iff
    (booked : Booked ram client) :
    client.Fresh ↔
      ∀ byte, Exposed client.ledger byte → ram byte = 0 := by
  constructor
  · rintro fresh byte ⟨⟨isMapped, reserved, isUntouched⟩, readable⟩
    have value := booked.untouched isMapped isUntouched
    rw [reserved, fresh byte isMapped readable isUntouched] at value
    exact value.symm
  · intro zero byte isMapped readable isUntouched
    rw [booked.untouched isMapped isUntouched]
    cases reserved : (client.ledger byte).reserved with
    | false =>
        rfl
    | true =>
        exact zero byte ⟨⟨isMapped, reserved, isUntouched⟩, readable⟩

/-- A request keeps memory fresh exactly if it exposes zero bytes only. -/
theorem fresh_step_iff
    {request : Request}
    (booked : Booked ram client)
    (fresh : client.Fresh)
    (admitted : pageClients.admits client request) :
    (client.step request).2.Fresh ↔
      ∀ byte, client.Exposes request byte → ram byte = 0 := by
  rw [fresh_iff (booked_step booked admitted)]
  constructor
  · intro zero byte exposes
    exact zero byte (exposed_of_exposes exposes)
  · intro zero byte exposed
    rcases exposed_step exposed with before | exposes
    · exact (fresh_iff booked).mp fresh byte before
    · exact zero byte exposes

/-- At boot nothing is mapped. -/
theorem booked_boot (ram : Memory) (errno : Int64) :
    Booked ram (boot ram errno) where
  within := (sound_initial ram errno).within
  below := nofun
  untouched := nofun
  above _ := rfl

end Client

/--
From any contents of RAM, memory that has become readable and was neither
written nor copied reads as zero all along a run exactly if every unwritten
byte of a reservation that the run makes readable was zero at boot.
-/
theorem anonymous_memory_fresh_iff
    (ram : Memory)
    (errno : Int64)
    (requests : List Request)
    (admissible :
      pageClients.Admissible (.boot ram errno) requests) :
    (∀ earlier later,
        requests = earlier ++ later →
        (pageClients.run (.boot ram errno) earlier).Fresh) ↔
      (carefulClients ram).Admissible (.boot ram errno) requests :=
  pageClients.run_always_iff Client.booked_step Client.fresh_step_iff
    (Client.booked_boot ram errno) nofun admissible

/-- A run with a reservation, a store and a move that exposes nothing. -/
theorem anonymous_memory_fresh_iff_mixed :
    let requests : List Request :=
      [.mmap 0 5000 0 0x22 (-1) 0, .mmap 0 100 3 0x22 (-1) 0,
        .write 0x10002003 7, .mremap 0x10002000 100 300 0,
        .mprotect 0x10000000 4096 0]
    (∀ earlier later,
        requests = earlier ++ later →
        (pageClients.run (.boot (fun _ => 0xCC) 0) earlier).Fresh) ↔
      (carefulClients fun _ => 0xCC).Admissible
        (.boot (fun _ => 0xCC) 0) requests :=
  anonymous_memory_fresh_iff (fun _ => 0xCC) 0
    [.mmap 0 5000 0 0x22 (-1) 0, .mmap 0 100 3 0x22 (-1) 0,
      .write 0x10002003 7, .mremap 0x10002000 100 300 0,
      .mprotect 0x10000000 4096 0]
    (by decide +kernel)

/-- A reservation made readable shows what RAM held before. -/
theorem reservation_shows_old_memory :
    ¬∀ ram errno requests,
      pageClients.Admissible (.boot ram errno) requests →
      (pageClients.run (.boot ram errno) requests).Fresh := by
  intro always
  have fresh :=
    always (fun _ => 0xCC) 0
      [.mmap 0 4096 0 0x22 (-1) 0, .mprotect 0x10000000 4096 1]
      (by decide +kernel)
  have zero := fresh 0x10000000 (by decide +kernel) (by decide +kernel)
    (by decide +kernel)
  exact absurd zero (by decide +kernel)

end RubyOnBareMetal.Mmap
