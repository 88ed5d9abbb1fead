import Mathlib.Algebra.Ring.Nat
import Mathlib.Logic.Function.Basic

/-!
# The pool allocator

`MyMemoryAllocator` threads a doubly linked list of block headers through one pool. Memory
is modelled by the header found at each address; `sizeof(MemBlock)` is a parameter.
-/

namespace Pyrn.Memory

inductive MemBlockStatus
  | INUSE
  | FREE
  deriving DecidableEq, Repr

structure MemBlock where
  prev : Option Nat
  sz : Nat
  data : Nat
  status : MemBlockStatus
  next : Option Nat
  deriving DecidableEq, Repr

abbrev Heap := Nat → MemBlock

structure MyMemoryAllocator where
  memory : Nat
  memorySize : Nat
  head : Nat
  heap : Heap

/-- Why a call does not return: a list walk is still going on when its budget is spent, or
`PrintResume` has found a list that is larger than the pool and resets the board. -/
inductive Halt
  | outOfFuel
  | systemReset
  deriving DecidableEq, Repr

/-- Assignment to a `uint16_t`. -/
def uint16 (x : Nat) : Nat := x % 2 ^ 16

namespace MyMemoryAllocator

variable (sizeofMemBlock : Nat)

/-- The constructor, over a pool whose contents are arbitrary. -/
def new (contents : Heap) (m sz : Nat) : MyMemoryAllocator where
  memory := m
  memorySize := sz
  head := m
  heap := Function.update contents m {
    prev := none
    sz := uint16 (sz + 2 ^ 32 - sizeofMemBlock)
    data := m + sizeofMemBlock
    status := .FREE
    next := none }

/-- Every list walk may visit as many blocks as the pool has bytes. -/
def walkFuel (st : MyMemoryAllocator) : Nat := st.memorySize + 1

def sumFrom (heap : Heap) : Nat → Option Nat → Nat → Except Halt Nat
  | 0, _, _ => .error .outOfFuel
  | _ + 1, none, sum => .ok sum
  | fuel + 1, some pBlock, sum =>
      sumFrom heap fuel (heap pBlock).next (uint16 (sum + ((heap pBlock).sz + sizeofMemBlock)))

/-- `PrintResume`, without its output. -/
def printResume (st : MyMemoryAllocator) : Except Halt Unit := do
  let sum ← sumFrom sizeofMemBlock st.heap st.walkFuel (some st.head) 0
  if sum > st.memorySize then throw .systemReset

/-- `if (next) next->prev = pBlock`. -/
def relink (heap : Heap) (pBlock : Nat) : Option Nat → Heap
  | none => heap
  | some next => Function.update heap next { heap next with prev := some pBlock }

def joinNextBlock (heap : Heap) (pBlock : Nat) : Heap :=
  match (heap pBlock).next with
  | none => heap
  | some nextBlock =>
      let unlinked := Function.update heap pBlock
        { heap pBlock with next := (heap nextBlock).next }
      let relinked := relink unlinked pBlock (unlinked nextBlock).next
      Function.update relinked pBlock { relinked pBlock with
        sz := uint16 ((relinked pBlock).sz + ((relinked nextBlock).sz + sizeofMemBlock)) }

def joinPrevBlock (heap : Heap) (pBlock : Nat) : Heap :=
  match (heap pBlock).prev with
  | none => heap
  | some prevBlock => joinNextBlock sizeofMemBlock heap prevBlock

def findBlockFrom (heap : Heap) (p : Nat) : Nat → Option Nat → Except Halt (Option Nat)
  | 0, _ => .error .outOfFuel
  | _ + 1, none => .ok none
  | fuel + 1, some pBlock =>
      if (heap pBlock).data = p then .ok (some pBlock)
      else findBlockFrom heap p fuel (heap pBlock).next

def findBlock (st : MyMemoryAllocator) (p : Nat) : Except Halt (Option Nat) :=
  findBlockFrom st.heap p st.walkFuel (some st.head)

/-- The body of `malloc` for a block that is large enough. -/
def fragment (heap : Heap) (pBlock sz : Nat) : Heap :=
  let nextBlock := (heap pBlock).data + sz
  let relinked := relink heap nextBlock (heap pBlock).next
  let split := Function.update relinked nextBlock {
    prev := some pBlock
    sz := uint16 ((relinked pBlock).sz - (sizeofMemBlock + sz))
    data := nextBlock + sizeofMemBlock
    status := .FREE
    next := (relinked pBlock).next }
  Function.update split pBlock { split pBlock with
    sz := sz
    status := .INUSE
    next := some nextBlock }

def mallocFrom (heap : Heap) (sz : Nat) : Nat → Option Nat → Except Halt (Option Nat × Heap)
  | 0, _ => .error .outOfFuel
  | _ + 1, none => .ok (none,heap)
  | fuel + 1, some pBlock =>
      if (heap pBlock).status = .FREE ∧ (heap pBlock).sz > sz + sizeofMemBlock then
        .ok (some (heap pBlock).data,fragment sizeofMemBlock heap pBlock sz)
      else mallocFrom heap sz fuel (heap pBlock).next

def malloc (st : MyMemoryAllocator) (sz : UInt16) :
    Except Halt (Option Nat × MyMemoryAllocator) := do
  let aligned := uint16 (sz.toNat + sz.toNat % 4)
  let (p,heap) ← mallocFrom sizeofMemBlock st.heap aligned st.walkFuel (some st.head)
  printResume sizeofMemBlock { st with heap := heap }
  return (p,{ st with heap := heap })

/-- The first join of `free`, with the block behind. -/
def joinFreeNext (heap : Heap) (pBlock : Nat) : Heap :=
  match (heap pBlock).next with
  | none => heap
  | some nextBlock =>
      if (heap nextBlock).status = .FREE then joinNextBlock sizeofMemBlock heap pBlock else heap

/-- The second join of `free`, with the block in front. -/
def joinFreePrev (heap : Heap) (pBlock : Nat) : Heap :=
  match (heap pBlock).prev with
  | none => heap
  | some prevBlock =>
      if (heap prevBlock).status = .FREE then joinPrevBlock sizeofMemBlock heap pBlock else heap

def free (st : MyMemoryAllocator) (p : Nat) : Except Halt MyMemoryAllocator := do
  match ← findBlock st p with
  | none => return st
  | some pBlock =>
      let freed := Function.update st.heap pBlock { st.heap pBlock with status := .FREE }
      let heap := joinFreeNext sizeofMemBlock freed pBlock
      printResume sizeofMemBlock { st with heap := heap }
      return { st with heap := joinFreePrev sizeofMemBlock heap pBlock }

end MyMemoryAllocator

end Pyrn.Memory
