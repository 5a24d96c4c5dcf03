/-
The physical memory allocator of `memory/memory.c`: the block bitmap, the two searches over it,
`mem_initialize`, `kmalloc` and `kfree`.
-/
import Aeon.Memory.Paging

namespace Aeon.Memory

def memBlockSize : KUint32 := 4096#32
def outOfMemory : KUint32 := 0xffffffff#32

/-- `memory_allocator_t`. `mem_map` is a flexible array: `memMap i` is word `i` of memory from
there on, whether or not the bookkeeping page reaches that far. -/
structure MemoryAllocator where
  minAddress : KUint32
  maxAddress : KUint32
  blockCount : KUint32
  memMap : Nat → KUint32

/-- The kernel's memory state: the page tables and `*g_memory_allocator`. -/
structure Kernel where
  pageTable : PageTable
  allocator : MemoryAllocator

/-! ## The bitmap -/

def memMemoryMapSet (bit : KUint32) (a : MemoryAllocator) : MemoryAllocator :=
  let word := (bit / 32#32).toNat
  { a with memMap := Function.update a.memMap word (a.memMap word ||| (1#32 <<< (bit % 32#32).toNat)) }

def memMemoryMapUnset (bit : KUint32) (a : MemoryAllocator) : MemoryAllocator :=
  let word := (bit / 32#32).toNat
  { a with memMap := Function.update a.memMap word (a.memMap word &&& ~~~(1#32 <<< (bit % 32#32).toNat)) }

def memMemoryMapTest (bit : KUint32) (a : MemoryAllocator) : Bool :=
  a.memMap (bit / 32#32).toNat &&& (1#32 <<< (bit % 32#32).toNat) != 0#32

/-! ## `mem_initialize` -/

/-- `mem_get_bytes`, from the CMOS registers `0x30` and `0x31`. -/
def memGetBytes (lowmem highmem : KUint8) : KUint32 :=
  let total : KUint16 := (lowmem.setWidth 32 ||| highmem.setWidth 32 <<< 8).setWidth 16
  total.setWidth 32 * 1024#32

/-- What `mem_initialize` finds: the page tables, the CMOS memory size, and the words of memory
from where `mem_map` will be. -/
structure Boot where
  pageTable : PageTable
  lowmem : KUint8
  highmem : KUint8
  memory : Nat → KUint32

/-- The words of `mem_map` that `memset (g_memory_allocator, 0, 4096)` clears: the page less the
three header words. -/
def bookkeepingWords : Nat := (4096 - 12) / 4

def memInitialize (b : Boot) : Outcome PageTable MemoryAllocator :=
  let minAddress := computeHighestFreeAddress b.pageTable
  let maxAddress := memGetBytes b.lowmem b.highmem
  (page minAddress 4096#32 ptfReadWrite b.pageTable).bind fun _ pageTable =>
    .ok { minAddress := minAddress + memBlockSize
          maxAddress := maxAddress
          blockCount := (maxAddress - minAddress) / memBlockSize
          memMap := fun i => if i < bookkeepingWords then 0#32 else b.memory i } pageTable

/-! ## The searches -/

/-- The inner loop of both searches over the bits of a word, `rem` bits before its end: the first
clear bit that `accept` takes. -/
def scanBits (word : KUint32) (accept : Nat → Bool) : (rem j : Nat) → Option Nat
  | 0, _ => none
  | rem + 1, j =>
    if word &&& (1#32 <<< j) == 0#32 && accept j then some j
    else scanBits word accept rem (j + 1)

/-- The outer loop of both searches from word `i` on; words with no clear bit are skipped. -/
def scanWords (memMap : Nat → KUint32) (accept : Nat → Nat → Bool) : (rem i : Nat) → KUint32
  | 0, _ => outOfMemory
  | rem + 1, i =>
    if memMap i = 0xffffffff#32 then
      scanWords memMap accept rem (i + 1)
    else
      match scanBits (memMap i) (accept i) 32 0 with
      | some j => BitVec.ofNat 32 (i * 32 + j)
      | none => scanWords memMap accept rem (i + 1)

def memFindFirstFreeBlock (a : MemoryAllocator) : KUint32 :=
  scanWords a.memMap (fun _ _ => true) (a.blockCount / 32#32).toNat 0

/-- The counting loop of the range search at bit `start_bit + count`, with `fuel` rounds left. -/
def countFree (a : MemoryAllocator) (size startBit : KUint32) : (fuel : Nat) → (count free : KUint32) → Bool
  | 0, _, _ => false
  | fuel + 1, count, free =>
    if size < count then false
    else
      let free := if memMemoryMapTest (startBit + count) a then free else free + 1#32
      if free = size then true else countFree a size startBit fuel (count + 1#32) free

/-- Rounds enough for every size. `count <= size` ends the loop after `size + 1` of them, except for
the largest size, which it never exceeds: there each 2^32 rounds count at least one clear bit, the
candidate's own. -/
def countFuel (size : KUint32) : Nat := if size = 0xffffffff#32 then 2 ^ 64 else size.toNat + 2

/-- The check of the range search at bit `j` of word `i`: `size` clear bits among the `size + 1`
from `start_bit` on, which is `i * 32` plus the mask `1 << j`. -/
def rangeCheck (a : MemoryAllocator) (size : KUint32) (i j : Nat) : Bool :=
  let bit : KUint32 := 1#32 <<< j
  let startBit := BitVec.ofNat 32 (i * 32) + bit
  countFree a size startBit (countFuel size) 0#32 0#32

def memFindFirstFreeBlockRange (size : KSize) (a : MemoryAllocator) : KUint32 :=
  if size = 1#32 then memFindFirstFreeBlock a
  else scanWords a.memMap (rangeCheck a size) (a.blockCount / 32#32).toNat 0

/-! ## `kmalloc` and `kfree` -/

/-- The marking loop of `kmalloc`: `rem` more blocks from `bit` on. -/
def setLoop : (rem : Nat) → (bit : KUint32) → MemoryAllocator → MemoryAllocator
  | 0, _, a => a
  | rem + 1, bit, a => setLoop rem (bit + 1#32) (memMemoryMapSet bit a)

/-- The release loop of `kfree`. -/
def unsetLoop : (rem : Nat) → (bit : KUint32) → MemoryAllocator → MemoryAllocator
  | 0, _, a => a
  | rem + 1, bit, a => unsetLoop rem (bit + 1#32) (memMemoryMapUnset bit a)

def kmalloc (size : KSize) (k : Kernel) : Outcome Kernel KUint32 :=
  let requiredBlockCount := size / memBlockSize + 1#32
  let freeBlock := memFindFirstFreeBlockRange requiredBlockCount k.allocator
  if freeBlock = outOfMemory then
    .halt (.panic "Out of physical memory.") k
  else
    let allocator := setLoop requiredBlockCount.toNat freeBlock k.allocator
    let physicalAddress := allocator.minAddress + freeBlock * memBlockSize
    (page physicalAddress size ptfReadWrite k.pageTable).lift fun pageTable => ⟨pageTable, allocator⟩

/-- `kfree`. It is declared to return the block count, but has no `return` statement. -/
def kfree (ptr : KUint32) (k : Kernel) : Outcome Kernel Unit :=
  let physicalAddress := getPhysicalAddress ptr k.pageTable
  ((unpage ptr k.pageTable).lift fun pageTable => ⟨pageTable, k.allocator⟩).bind fun blockCount k =>
    let frame := (k.allocator.minAddress - physicalAddress) / memBlockSize
    .ok () { k with allocator := unsetLoop blockCount.toNat frame k.allocator }

end Aeon.Memory
