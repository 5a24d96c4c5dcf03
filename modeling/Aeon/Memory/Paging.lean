/-
The kernel page tables and the functions of `memory/paging.c` over them: the search for a free
run, `page`, `page_unaligned`, `unpage`, `get_physical_address` and the scan for the highest
mapped frame.
-/
import Aeon.Klibc.Types

namespace Aeon.Memory

/-! ## Flags and sizes -/

def ptfPresent : KUint32 := 1#32 <<< 0
def ptfReadWrite : KUint32 := 1#32 <<< 1
def ptfUser : KUint32 := 1#32 <<< 2
/-- `PTF_AEON_END_OF_BLOCK`: `unpage` keeps unpaging until it finds this bit. -/
def ptfAeonEndOfBlock : KUint32 := 1#32 <<< 10
/-- `PTF_AEON_LOCKED`: the page should never be unpaged, it belongs to the kernel. -/
def ptfAeonLocked : KUint32 := 1#32 <<< 11

def pageTableLen : Nat := 1024
/-- `KERNEL_PAGE_TABLES_LEN`, for `NUM_KERNEL_PAGE_TABLES` = 3 tables. -/
def kernelPageTablesLen : Nat := pageTableLen * 3
def pageSize : KUint32 := 0x1000#32
def kernelFirstPageAddress : KUint32 := 0xC0000000#32
def kernelFirstPageTableOffset : KUint32 := 768#32
def outOfFreeBlocks : KSize := 0xffffffff#32

/-- The words of memory from `g_page_table_C0000000` on: the three kernel tables, contiguous, are
the first `kernelPageTablesLen` of them. -/
abbrev PageTable := Nat → KUint32

/-! ## `find_free_blocks_offset` -/

/-- `page_table[i] & PTF_PRESENT || page_table[i] & PTF_AEON_LOCKED`. -/
def entryInUse (entry : KUint32) : Bool :=
  entry &&& ptfPresent != 0#32 || entry &&& ptfAeonLocked != 0#32

/-- The inner loop, over `rem` more entries from index `i` on: is none of them in use? -/
def blocksFree (pageTable : PageTable) : (rem i : Nat) → Bool
  | 0, _ => true
  | rem + 1, i => if entryInUse (pageTable i) then false else blocksFree pageTable rem (i + 1)

/-- The outer loop at index `i`, `rem` entries before the end of the table. -/
def findFreeBlocksLoop (pageTable : PageTable) (pageTableSize requestedCount : KSize) :
    (rem : Nat) → (i : KSize) → KSize
  | 0, _ => outOfFreeBlocks
  | rem + 1, i =>
    if entryInUse (pageTable i.toNat) then
      findFreeBlocksLoop pageTable pageTableSize requestedCount rem (i + 1#32)
    else if pageTableSize ≤ i + requestedCount then
      outOfFreeBlocks
    else if blocksFree pageTable requestedCount.toNat i.toNat then
      i
    else
      findFreeBlocksLoop pageTable pageTableSize requestedCount rem (i + 1#32)

def findFreeBlocksOffset (pageTable : PageTable) (pageTableSize requestedCount : KSize) : KSize :=
  findFreeBlocksLoop pageTable pageTableSize requestedCount pageTableSize.toNat 0#32

/-! ## `compute_highest_free_address` -/

/-- The frame an entry points to: `entry & ~0xfff`. -/
def entryFrame (entry : KUint32) : KUint32 := entry &&& ~~~0xfff#32

/-- The running maximum after the first `n` entries (`MAX` of `klibc/math.h`). -/
def highestAddressLoop (pageTable : PageTable) : (n : Nat) → KUint32
  | 0 => 0#32
  | n + 1 =>
    let highestAddress := highestAddressLoop pageTable n
    if entryFrame (pageTable n) < highestAddress then highestAddress else entryFrame (pageTable n)

def computeHighestFreeAddress (pageTable : PageTable) : KUint32 :=
  highestAddressLoop pageTable kernelPageTablesLen + pageSize

/-! ## `page` and `page_unaligned` -/

/-- The mapping loop: `rem` more entries from index `i`, at physical address `pa` on. -/
def pageLoop (flags : KUint32) : (rem i : Nat) → (pa : KUint32) → PageTable → PageTable
  | 0, _, _, pageTable => pageTable
  | rem + 1, i, pa, pageTable =>
    pageLoop flags rem (i + 1) (pa + pageSize) (Function.update pageTable i (pa ||| flags ||| ptfPresent))

/-- `page`. User space has no table yet: its length is 0 and the search fails. -/
def page (physicalAddress : KUint32) (size : KSize) (flags : KUint32) (pageTable : PageTable) :
    Outcome PageTable KUint32 :=
  let pageTableLength : KUint32 :=
    if flags &&& ptfUser != 0#32 then 0#32 else BitVec.ofNat 32 kernelPageTablesLen
  let requiredPageCount := size / pageSize + 1#32
  let pageOffset := findFreeBlocksOffset pageTable pageTableLength requiredPageCount
  if pageOffset = outOfFreeBlocks then
    .halt (.panic "Out of page space.") pageTable
  else
    let mapped := pageLoop flags requiredPageCount.toNat pageOffset.toNat physicalAddress pageTable
    -- the loop leaves `i` one past the last entry
    let last := pageOffset.toNat + requiredPageCount.toNat - 1
    let marked := Function.update mapped last (mapped last ||| ptfAeonEndOfBlock)
    if flags &&& ptfUser != 0#32 then .ok 0#32 marked
    else .ok (kernelFirstPageAddress + pageOffset * pageSize) marked

/-- `align` of `memory.c`: `addr &= -align`. -/
def align (ptr align : KUint32) : KUint32 := ptr &&& -align

def pageAlign (ptr : KUint32) : KUint32 := align ptr 0x1000#32

def pageUnaligned (physicalAddress : KUint32) (size : KSize) (flags : KUint32) (pageTable : PageTable) :
    Outcome PageTable KUint32 :=
  let alignedPhysicalAddress := pageAlign physicalAddress
  let offset := physicalAddress - alignedPhysicalAddress
  (page alignedPhysicalAddress size flags pageTable).bind fun virtualAddress pageTable =>
    .ok (virtualAddress + offset) pageTable

/-! ## `unpage` and `get_physical_address` -/

def pageDirIndex (virtAddress : KUint32) : KUint32 := (virtAddress >>> 22) &&& 0x3ff#32
def pageTableIndex (virtAddress : KUint32) : KUint32 := (virtAddress >>> 12) &&& 0x3ff#32

/-- The index into the contiguous kernel tables that `unpage` and `get_physical_address` compute. -/
def tableOffset (virtAddress : KUint32) : KUint32 :=
  (pageDirIndex virtAddress - kernelFirstPageTableOffset) * BitVec.ofNat 32 pageTableLen
    + pageTableIndex virtAddress

/-- The walk of `unpage` at index `i`, `rem` entries before the end of the kernel tables. -/
def unpageLoop : (rem i : Nat) → (pageCount : KUint32) → PageTable → Outcome PageTable KUint32
  | 0, _, _, pageTable => .halt .wild pageTable
  | rem + 1, i, pageCount, pageTable =>
    if pageTable i &&& ptfAeonLocked != 0#32 then
      .halt (.panic "Kernel tried to unpage a locked page.") pageTable
    else if pageTable i &&& ptfAeonEndOfBlock != 0#32 then
      .ok (pageCount + 1#32) (Function.update pageTable i 0#32)
    else
      unpageLoop rem (i + 1) (pageCount + 1#32) (Function.update pageTable i 0#32)

/-- `unpage`. A user-space address is not handled yet: the code dereferences `NULL`. -/
def unpage (virtAddress : KUint32) (pageTable : PageTable) : Outcome PageTable KUint32 :=
  if kernelFirstPageTableOffset ≤ pageDirIndex virtAddress then
    let offset := (tableOffset virtAddress).toNat
    unpageLoop (kernelPageTablesLen - offset) offset 0#32 pageTable
  else
    .halt .wild pageTable

def getPhysicalAddress (virtAddress : KUint32) (pageTable : PageTable) : KUint32 :=
  if kernelFirstPageTableOffset ≤ pageDirIndex virtAddress then
    entryFrame (pageTable (tableOffset virtAddress).toNat)
  else
    0#32

end Aeon.Memory
