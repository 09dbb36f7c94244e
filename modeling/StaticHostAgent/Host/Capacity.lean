import StaticHostAgent.Host.Errors

/-!
# Allocation and capacity admission

What one write may allocate, and the admission of a reservation against the free floors of the
filesystem. `Admits.weaken` is the fact the replays rest on: what was admitted stays
admitted for a smaller reservation, as long as no more than the difference was consumed.
-/

set_option autoImplicit false

namespace StaticHostAgent.Host

open Library Contracts

def mebibyte : Nat := 1024 * 1024

def gibibyte : Nat := 1024 * mebibyte

/-- How the state filesystem allocates: its fragment and block sizes, and the bytes a file of a
given length occupies, which is at least its length and at most the length rounded up. -/
structure Allocation where
  fragmentSize : Nat
  blockSize : Nat
  allocated : Nat → Nat
  le_allocated : ∀ n, n ≤ allocated n
  allocated_le : ∀ n, allocated n ≤ (n + fragmentSize - 1) / fragmentSize * fragmentSize

namespace Allocation

/-- A filesystem that allocates single bytes. -/
def exact : Allocation := ⟨1, 1, id, fun _ => le_rfl, fun n => by simp⟩

/-- Round one complete write up to the allocation fragment. -/
def allocationUpperBound (a : Allocation) (byteCount : Nat) : Nat :=
  (byteCount + a.fragmentSize - 1) / a.fragmentSize * a.fragmentSize

/-- The ceiling on directory growth for new entries. -/
def namespaceAllocationUpperBound (a : Allocation) (entryCount : Nat) : Nat :=
  entryCount * 2 * a.blockSize

theorem allocated_le_upper (a : Allocation) (n : Nat) :
    a.allocated n ≤ a.allocationUpperBound n := a.allocated_le n

theorem allocationUpperBound_mono (a : Allocation) {m n : Nat} (h : m ≤ n) :
    a.allocationUpperBound m ≤ a.allocationUpperBound n := by
  unfold allocationUpperBound
  exact Nat.mul_le_mul_right _ (Nat.div_le_div_right (by omega))

theorem namespaceAllocationUpperBound_add (a : Allocation) (m n : Nat) :
    a.namespaceAllocationUpperBound (m + n) =
      a.namespaceAllocationUpperBound m + a.namespaceAllocationUpperBound n := by
  unfold namespaceAllocationUpperBound
  rw [Nat.add_mul, Nat.add_mul]

end Allocation

/-- The ceilings and floors of the host. -/
structure HostCapacityLimits where
  maximumAllocatedBytes : Nat
  maximumUniqueInodes : Nat
  minimumAvailableBytes : Nat
  minimumAvailableInodes : Nat
  minimumAvailablePercent : Nat

def defaultHostCapacityLimits : HostCapacityLimits :=
  ⟨10 * gibibyte, 500000, 5 * gibibyte, 100000, 10⟩

/-- Worst-case blocks and new inodes reserved before a mutation. -/
structure CapacityReservation where
  allocatedBytes : Nat
  uniqueInodes : Nat

/-- The ordinarily available view of the filesystem. -/
structure FilesystemCapacity where
  totalBytes : Nat
  availableBytes : Nat
  totalInodes : Nat
  availableInodes : Nat
  deriving DecidableEq

def percentageFloor (total percentage : Nat) : Nat := (total * percentage + 100 - 1) / 100

def HostCapacityLimits.requiredBytes (l : HostCapacityLimits) (f : FilesystemCapacity) : Nat :=
  max l.minimumAvailableBytes (percentageFloor f.totalBytes l.minimumAvailablePercent)

def HostCapacityLimits.requiredInodes (l : HostCapacityLimits) (f : FilesystemCapacity) : Nat :=
  max l.minimumAvailableInodes (percentageFloor f.totalInodes l.minimumAvailablePercent)

/-- Admit a reservation on top of no release usage, if the ceilings and floors stay satisfied. -/
def admitReleaseCapacity (limits : HostCapacityLimits) (reservation : CapacityReservation)
    (filesystem : FilesystemCapacity) : Except AgentError Unit := do
  require (decide (reservation.allocatedBytes ≤ limits.maximumAllocatedBytes))
    (.capacityRejected "release allocation would cross the host byte ceiling")
  require (decide (reservation.uniqueInodes ≤ limits.maximumUniqueInodes))
    (.capacityRejected "release allocation would cross the host inode ceiling")
  require (decide (reservation.allocatedBytes ≤ filesystem.availableBytes))
    (.capacityRejected "release reservation exceeds ordinarily available blocks")
  require (decide (reservation.uniqueInodes ≤ filesystem.availableInodes))
    (.capacityRejected "release reservation exceeds ordinarily available inodes")
  require (decide (limits.requiredBytes filesystem ≤
      filesystem.availableBytes - reservation.allocatedBytes))
    (.capacityRejected "release reservation would cross the free-block floor")
  require (decide (limits.requiredInodes filesystem ≤
      filesystem.availableInodes - reservation.uniqueInodes))
    (.capacityRejected "release reservation would cross the free-inode floor")

/-- The reservation fits under the ceilings and above the floors. -/
structure Admits (limits : HostCapacityLimits) (reservation : CapacityReservation)
    (filesystem : FilesystemCapacity) : Prop where
  byteCeiling : reservation.allocatedBytes ≤ limits.maximumAllocatedBytes
  inodeCeiling : reservation.uniqueInodes ≤ limits.maximumUniqueInodes
  bytes : reservation.allocatedBytes + limits.requiredBytes filesystem ≤ filesystem.availableBytes
  inodes : reservation.uniqueInodes + limits.requiredInodes filesystem ≤ filesystem.availableInodes

theorem admitReleaseCapacity_eq_ok {limits : HostCapacityLimits} {r : CapacityReservation}
    {f : FilesystemCapacity} {u : Unit} :
    admitReleaseCapacity limits r f = .ok u ↔ Admits limits r f := by
  unfold admitReleaseCapacity
  simp only [bind_eq_ok, require_eq_ok, decide_eq_true_eq]
  constructor
  · rintro ⟨-, h1, -, h2, -, h3, -, h4, -, h5, h6⟩
    exact ⟨h1, h2, by omega, by omega⟩
  · rintro ⟨h1, h2, h3, h4⟩
    exact ⟨(), h1, (), h2, (), by omega, (), by omega, (), by omega, by omega⟩

/-- What was admitted stays admitted for less, when no more than the difference was consumed. -/
theorem Admits.weaken {limits : HostCapacityLimits} {r r' : CapacityReservation}
    {f f' : FilesystemCapacity} (h : Admits limits r f)
    (hbytes : f'.totalBytes = f.totalBytes) (hinodes : f'.totalInodes = f.totalInodes)
    (hb : r'.allocatedBytes + f.availableBytes ≤ r.allocatedBytes + f'.availableBytes)
    (hi : r'.uniqueInodes + f.availableInodes ≤ r.uniqueInodes + f'.availableInodes)
    (hble : r'.allocatedBytes ≤ r.allocatedBytes) (hile : r'.uniqueInodes ≤ r.uniqueInodes) :
    Admits limits r' f' := by
  have hfloor : limits.requiredBytes f' = limits.requiredBytes f := by
    unfold HostCapacityLimits.requiredBytes
    rw [hbytes]
  have hfloor' : limits.requiredInodes f' = limits.requiredInodes f := by
    unfold HostCapacityLimits.requiredInodes
    rw [hinodes]
  obtain ⟨h1, h2, h3, h4⟩ := h
  exact ⟨hble.trans h1, hile.trans h2, by omega, by omega⟩

end StaticHostAgent.Host
