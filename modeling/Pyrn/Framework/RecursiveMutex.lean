/-!
# Recursive mutexes

One thread's view of a recursive mutex: how often it has acquired and released it. The owner
obtains the mutex again at once, and a release by a thread that is not the owner fails.
-/

/-- The successful acquisitions and releases of a thread. -/
structure RecursiveMutex where
  acquired : Nat
  released : Nat
  released_le : released ≤ acquired

namespace RecursiveMutex

/-- A mutex that the thread has not used yet. -/
def new : RecursiveMutex := ⟨0,0,Nat.le_refl 0⟩

def depth (mutex : RecursiveMutex) : Nat := mutex.acquired - mutex.released

/-- Whether an attempt succeeds; `free` says that no other thread owns the mutex. -/
def obtains (mutex : RecursiveMutex) (free : Bool) : Bool := decide (0 < mutex.depth) || free

def acquire (mutex : RecursiveMutex) : RecursiveMutex :=
  ⟨mutex.acquired + 1,mutex.released,Nat.le_succ_of_le mutex.released_le⟩

def trylock (mutex : RecursiveMutex) (free : Bool) : RecursiveMutex :=
  if mutex.obtains free = true then mutex.acquire else mutex

def unlock (mutex : RecursiveMutex) : RecursiveMutex :=
  if h : mutex.released < mutex.acquired then ⟨mutex.acquired,mutex.released + 1,h⟩ else mutex

/-- As many successful releases as successful acquisitions between two moments. -/
def Balanced (before after : RecursiveMutex) : Prop :=
  after.acquired + before.released = before.acquired + after.released

instance (before after : RecursiveMutex) : Decidable (Balanced before after) :=
  inferInstanceAs (Decidable (_ = _))

theorem balanced_iff {before after : RecursiveMutex} :
    Balanced before after ↔ after.depth = before.depth := by
  have hbefore := before.released_le
  have hafter := after.released_le
  unfold Balanced depth
  omega

@[simp] theorem depth_acquire (mutex : RecursiveMutex) : mutex.acquire.depth = mutex.depth + 1 := by
  have hle := mutex.released_le
  simp only [depth,acquire]
  omega

@[simp] theorem depth_unlock (mutex : RecursiveMutex) : mutex.unlock.depth = mutex.depth - 1 := by
  unfold unlock
  split <;> simp only [depth] <;> omega

theorem obtains_of_pos {mutex : RecursiveMutex} (h : 0 < mutex.depth) (free : Bool) :
    mutex.obtains free = true := by
  simp [obtains,h]

theorem obtains_true (mutex : RecursiveMutex) : mutex.obtains true = true := by
  simp [obtains]

theorem trylock_of_obtains {mutex : RecursiveMutex} {free : Bool}
    (h : mutex.obtains free = true) : mutex.trylock free = mutex.acquire := if_pos h

theorem trylock_of_not_obtains {mutex : RecursiveMutex} {free : Bool}
    (h : ¬mutex.obtains free = true) : mutex.trylock free = mutex := if_neg h

end RecursiveMutex
