import Zapada.Zaclr.Assemblies
import Zapada.Zaclr.Conversions
import Zapada.Mm.HeapRuns

/-! Arrays of one dimension: the size that `newarr` gives the elements, and the instructions that
load and store them. -/

namespace Zapada.Zaclr

open Foundation

/-- `sizeof(zaclr_object_handle)`, which is also `sizeof(uintptr_t)`. -/
def objectHandleSize : Nat := 8

def elementSizeForTypeName (typeName : String) : Nat :=
  if typeName = "Byte" ∨ typeName = "SByte" ∨ typeName = "Boolean" then 1
  else if typeName = "Int16" ∨ typeName = "UInt16" ∨ typeName = "Char" then 2
  else if typeName = "Int64" ∨ typeName = "UInt64" ∨ typeName = "Double" then 8
  else if typeName = "Int32" ∨ typeName = "UInt32" ∨ typeName = "Single" then 4
  else objectHandleSize

/-- The namespace of the type does not count. -/
def elementSizeForToken (program : Program) (current token : Nat) : Nat :=
  if tokenMatchesTable token typeSpecTable then objectHandleSize
  else
    match program.metadataGetTypeName current token with
    | none => objectHandleSize
    | some name => elementSizeForTypeName name.typeName

def tokenIsHeapReference (token : Nat) : Bool :=
  tokenMatchesTable token typeDefTable || tokenMatchesTable token typeRefTable || tokenMatchesTable
    token typeSpecTable

def arrayHeaderSize : Nat := 56

/-- `struct zaclr_array_desc`, with the place of the object. -/
structure ArrayDesc where
  address : Nat
  length : BitVec 32
  elementSize : Nat
  elementType : Nat
deriving DecidableEq

/-- The array that `newarr` makes of the memory it is given. -/
def newarr (program : Program) (current token : Nat) (length : BitVec 32) (address : Nat) :
    ArrayDesc where
  address
  length
  elementSize := elementSizeForToken program current token
  elementType := token

inductive LoadElement where
  | i1
  | u1
  | i2
  | u2
  | i4
  | u4
  | i8
  | i
  | r4
  | r8
  | ref
  | generic
deriving DecidableEq

inductive StoreElement where
  | i
  | i1
  | i2
  | i4
  | i8
  | r4
  | r8
  | ref
  | generic
deriving DecidableEq

namespace ArrayDesc

variable (array : ArrayDesc)

def elementAddress (index : BitVec 32) : Nat :=
  array.address + arrayHeaderSize + index.toNat * array.elementSize

/-- The bytes that a load reads, and what it pushes for them. -/
def loadCode : LoadElement → Option (Nat × (Nat → StackValue))
  | .i1 => some (1, fun number => .i4 (castSigned 8 (BitVec.ofNat 32 number)))
  | .u1 => some (1, fun number => .i4 (BitVec.ofNat 32 number))
  | .i2 => some (2, fun number => .i4 (castSigned 16 (BitVec.ofNat 32 number)))
  | .u2 => some (2, fun number => .i4 (BitVec.ofNat 32 number))
  | .i4 | .u4 | .i => some (4, fun number => .i4 (BitVec.ofNat 32 number))
  | .i8 => some (8, fun number => .i8 (BitVec.ofNat 64 number))
  | .r4 => some (4, fun number => .r4 (BitVec.ofNat 32 number))
  | .r8 => some (8, fun number => .r8 (BitVec.ofNat 64 number))
  | .ref => some (8, fun number => .objectReference (BitVec.ofNat 64 number))
  | .generic =>
    if tokenIsHeapReference array.elementType then
      some (8, fun number => .objectReference (BitVec.ofNat 64 number))
    else
      match array.elementSize with
      | 1 => some (1, fun number => .i4 (BitVec.ofNat 32 number))
      | 2 => some (2, fun number => .i4 (BitVec.ofNat 32 number))
      | 4 => some (4, fun number => .i4 (BitVec.ofNat 32 number))
      | 8 => some (8, fun number => .i8 (BitVec.ofNat 64 number))
      | _ => none

end ArrayDesc

def stackValueToObjectHandle : StackValue → Option (BitVec 64)
  | .objectReference address => some address
  | _ => none

/-- The bits that a value is stored as in an element of a `float`. -/
def storedR4 (value : StackValue) : BitVec 32 :=
  ((stackValueToCommonFloatBits value).sshiftRight (float64Shift - float32Shift)).setWidth 32

namespace ArrayDesc

variable (array : ArrayDesc)

/-- The bytes that a store writes, and the number it writes there. -/
def storeCode (value : StackValue) : StoreElement → Option (Nat × Nat)
  | .i1 => (stackValueToI32 value).map fun number => (1, number.toNat)
  | .i2 => (stackValueToI32 value).map fun number => (2, number.toNat)
  | .i | .i4 => (stackValueToI32 value).map fun number => (4, number.toNat)
  | .i8 => (stackValueToI64 value).map fun number => (8, number.toNat)
  | .r4 => some (4, (storedR4 value).toNat)
  | .r8 => some (8, (stackValueToCommonFloatBits value).toNat)
  | .ref => (stackValueToObjectHandle value).map fun handle => (8, handle.toNat)
  | .generic =>
    if tokenIsHeapReference array.elementType then
      (stackValueToObjectHandle value).map fun handle => (8, handle.toNat)
    else
      match array.elementSize with
      | 1 => (stackValueToI32 value).map fun number => (1, number.toNat)
      | 2 => (stackValueToI32 value).map fun number => (2, number.toNat)
      | 4 => (stackValueToI32 value).map fun number => (4, number.toNat)
      | 8 => (stackValueToI64 value).map fun number => (8, number.toNat)
      | _ => none

end ArrayDesc

def readArrayIndexedValue (memory : Memory) (array : ArrayDesc) (index : BitVec 32)
    (opcode : LoadElement) :
    Option StackValue :=
  if array.length ≤ index then none
  else (array.loadCode opcode).map fun (width, push) =>
    push (memory.load (array.elementAddress index) width)

def writeArrayIndexedValue (memory : Memory) (array : ArrayDesc) (index : BitVec 32)
    (opcode : StoreElement) (value : StackValue) : Option Memory :=
  if array.length ≤ index then none
  else (array.storeCode value opcode).map fun (width, number) =>
    memory.store (array.elementAddress index) width number

/-! The heap of managed objects on top of the kernel heap, and the allocation of arrays. The
contents of objects are kept apart from the memory that the kernel heap manages. -/

open Mm

structure HeapNode where
  object : Nat
  allocationSize : Nat
deriving DecidableEq

/-- `struct zaclr_heap` and the kernel heap with what its callers hold. -/
structure ManagedHeap where
  kernel : HeapSystem
  hasRuntime : Bool
  gcActive : Bool
  nodesPointer : Nat
  nodes : List HeapNode
  nodeCapacity : Nat
  liveObjectCount : Nat
  allocatedBytes : Nat
  collectionThresholdBytes : Nat

/-- `kernel_alloc`; `none` if the search of the kernel heap does not end. -/
def kernelAlloc (kernel : HeapSystem) (size : Nat) : Option (Nat × HeapSystem) :=
  (kheapAlloc kernel.heap size).map fun (ptr, heap) =>
    (ptr, { heap, live := if ptr = 0 then kernel.live else kernel.live ++ [(ptr, size)] })

def kernelFree (kernel : HeapSystem) (ptr : Nat) : HeapSystem :=
  { heap := kheapFree kernel.heap ptr, live := kernel.live.filter (·.1 ≠ ptr) }

/-- The loop that doubles a capacity; `none` if it is exhausted. -/
def growCapacity (minimum : Nat) : (fuel capacity : Nat) → Option Nat
  | 0, _ => none
  | fuel + 1, capacity =>
    if minimum ≤ capacity then some capacity
    else if 0xFFFFFFFF / 2 < capacity then none
    else growCapacity minimum fuel (capacity * 2)

/-- `sizeof(struct zaclr_heap_object_node)`. -/
def heapNodeSize : Nat := 16

def zaclrHeapReserveNodes (heap : ManagedHeap) (minimumCapacity : Nat) : Option ManagedHeap :=
  if minimumCapacity ≤ heap.nodeCapacity then some heap
  else do
    let capacity ← growCapacity minimumCapacity 33 (if heap.nodeCapacity = 0 then
      16 else heap.nodeCapacity)
    let (pointer, kernel) ← kernelAlloc heap.kernel (heapNodeSize * capacity)
    if pointer = 0 then none
    else
      some { heap with
        kernel := if heap.nodesPointer = 0 then kernel else kernelFree kernel heap.nodesPointer
        nodesPointer := pointer
        nodeCapacity := capacity }

def objectDescSize : Nat := 40

/-- A collection before the allocation, if the threshold is reached. -/
def collectAtThreshold (collect : ManagedHeap → Option ManagedHeap) (heap : ManagedHeap)
    (allocationSize : Nat) :
    Option ManagedHeap :=
  if heap.hasRuntime ∧ heap.collectionThresholdBytes ≠ 0 ∧ allocationSize ≤ 0xFFFFFFFF ∧
      u32 (heap.collectionThresholdBytes + 2 ^ 32 - allocationSize) < heap.allocatedBytes then
    collect heap
  else some heap

/-- The memory for an object; a collection makes room for a second attempt. -/
def allocateMemory (collect : ManagedHeap → Option ManagedHeap) (heap : ManagedHeap)
    (allocationSize : Nat) :
    Option (Nat × ManagedHeap) := do
  let (object, kernel) ← kernelAlloc heap.kernel allocationSize
  let heap := { heap with kernel }
  if object ≠ 0 then some (object, heap)
  else if heap.hasRuntime ∧ ¬ heap.gcActive then
    let heap ← collect heap
    let (object, kernel) ← kernelAlloc heap.kernel allocationSize
    if object ≠ 0 then some (object, { heap with kernel }) else none
  else none

/-- The object and the heap with a node for it. -/
def zaclrHeapAllocateObject (collect : ManagedHeap → Option ManagedHeap) (heap : ManagedHeap)
    (allocationSize : Nat) :
    Option (Nat × ManagedHeap) :=
  if allocationSize < objectDescSize then none
  else do
    let heap ← collectAtThreshold collect heap allocationSize
    let heap ← zaclrHeapReserveNodes heap (u32 (heap.nodes.length + 1))
    let (object, heap) ← allocateMemory collect heap allocationSize
    some (object, { heap with
      nodes := heap.nodes ++ [{ object, allocationSize := u32 allocationSize }]
      liveObjectCount := u32 (heap.liveObjectCount + 1)
      allocatedBytes := u32 (heap.allocatedBytes + allocationSize) })

/-- The product of the sizes has 32 bits. -/
def zaclrArrayAllocate (collect : ManagedHeap → Option ManagedHeap) (heap : ManagedHeap)
    (elementType : Nat) (elementSize length : BitVec 32) : Option (ArrayDesc × ManagedHeap) :=
  if elementSize = 0 then none
  else do
    let dataSize := elementSize * length
    let (address, heap) ← zaclrHeapAllocateObject collect heap (arrayHeaderSize + dataSize.toNat)
    some ({ address, length, elementSize := elementSize.toNat, elementType }, heap)

end Zapada.Zaclr
