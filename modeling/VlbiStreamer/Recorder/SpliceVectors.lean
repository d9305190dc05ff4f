import VlbiStreamer.Library.Gather
import VlbiStreamer.Recorder.Writers

/-!
# The vectors of the splice writer

`splice_write` offers a buffer to `vmsplice` as vectors of one page each, at most
`max_pipe_length` of them, and `setup_nvecs` cuts what is left anew after every
transfer.  A transfer may end anywhere, so the pages of the vectors need not be
those of the memory.

The offset of a vector is the product of an `unsigned int` and an `int`, taken
modulo 2^32, and `trycount` is a `long`.  `Unwrapped` says that no offset wraps;
`init_splice` sees to it (`unwrapped_of_init`).

`cuts_and_splices` is the result: the vectors are consecutive pages of the buffer,
and the loop hands over every byte once and in order, however short the transfers
are.  `spliceLoop_results` connects this loop to the `spliceLoop` that knows nothing of
vectors.
-/

namespace VlbiStreamer.Recorder

open Library

/-- What the vectors need of `struct splice_ops`. -/
structure SpliceOps where
  iov : ℕ → Iovec
  maxPipeLength : ℕ
  pagesize : ℕ
  maxPipeLength_pos : 0 < maxPipeLength
  maxPipeLength_le : maxPipeLength ≤ iovMax
  pagesize_pos : 0 < pagesize
  pagesize_lt : pagesize < 2 ^ 31

namespace SpliceOps

variable (sp : SpliceOps) (start count : ℕ)

/-- Store a vector. -/
def setVec (i : ℕ) (v : Iovec) : SpliceOps := { sp with iov := Function.update sp.iov i v }

/-- `i*sp->pagesize` is an `unsigned int`. -/
def offset (i : ℕ) : ℕ := i * sp.pagesize % 2 ^ 32

/-- The first `n` passes of the loop of `setup_nvecs`. -/
def wholePages : ℕ → SpliceOps
  | 0 => sp
  | i + 1 => (wholePages i).setVec i ⟨start + sp.offset i, sp.pagesize⟩

/-- `setup_nvecs`: how many vectors, and the vectors. -/
def setupNvecs : ℕ × SpliceOps :=
  let nVecs := min sp.maxPipeLength (count / sp.pagesize)
  let lastwrite := count % sp.pagesize
  let pages := sp.wholePages start nVecs
  if nVecs < sp.maxPipeLength ∧ lastwrite ≠ 0 then
    (nVecs + 1, pages.setVec nVecs ⟨start + sp.offset nVecs, lastwrite⟩)
  else (nVecs, pages)

/-- The first `n` vectors. -/
def vectors (n : ℕ) : List Iovec := (List.range n).map sp.iov

end SpliceOps

/-- A `size_t` as a `long`. -/
def toLong (count : ℕ) : ℤ := Int.bmod count (2 ^ 64)

theorem toLong_eq {count : ℕ} (h : count < 2 ^ 63) : toLong count = count := by
  unfold toLong
  rw [Int.bmod_eq_of_le] <;> omega

/-- What the loop of `splice_write` meets in each pass. -/
structure Kernel where
  /-- Is `pstatus` above `PSTATUS_END` at the test of the loop? -/
  alive : ℕ → Bool
  /-- What `vmsplice` returns. -/
  vmsplice : ℕ → List Iovec → ℤ

/-- The variables of `splice_write` in its loop. -/
structure Splicing where
  sp : SpliceOps
  pointToStart : ℕ
  trycount : ℤ
  ret : ℤ
  totalW : ℤ
  nVecs : ℕ
  /-- The addresses that `vmsplice` took, in order. -/
  handed : List ℕ

namespace Splicing

variable (w : Splicing)

/-- The vectors that are offered. -/
def offered : List Iovec := w.sp.vectors w.nVecs

/-- `setup_nvecs` for what is left. -/
def setup : Splicing :=
  let vecs := w.sp.setupNvecs w.pointToStart w.trycount.toNat
  { w with nVecs := vecs.1, sp := vecs.2 }

/-- `long trycount = count`, and the first vectors. -/
def start (sp : SpliceOps) (start count : ℕ) : Splicing :=
  let vecs := sp.setupNvecs start count
  ⟨vecs.2, start, toLong count, 0, 0, vecs.1, []⟩

theorem trycount_start (sp : SpliceOps) (start count : ℕ) :
    (Splicing.start sp start count).trycount = toLong count := by
  simp only [Splicing.start]

theorem ret_start (sp : SpliceOps) (start count : ℕ) :
    (Splicing.start sp start count).ret = 0 := rfl

theorem totalW_start (sp : SpliceOps) (start count : ℕ) :
    (Splicing.start sp start count).totalW = 0 := rfl

/-- `vmsplice` took `ret` bytes. -/
def transferred (ret : ℤ) : Splicing :=
  let left := w.trycount - ret
  let next : Splicing :=
    { sp := w.sp
      pointToStart := w.pointToStart + ret.toNat
      trycount := left
      ret := ret
      totalW := w.totalW + ret
      nVecs := w.nVecs
      handed := w.handed ++ (Iovec.gather w.offered).take ret.toNat }
  if 0 < left then next.setup else next

@[simp] theorem trycount_transferred (ret : ℤ) :
    (w.transferred ret).trycount = w.trycount - ret := by
  unfold transferred
  simp only
  split <;> rfl

@[simp] theorem ret_transferred (ret : ℤ) : (w.transferred ret).ret = ret := by
  unfold transferred
  simp only
  split <;> rfl

@[simp] theorem totalW_transferred (ret : ℤ) :
    (w.transferred ret).totalW = w.totalW + ret := by
  unfold transferred
  simp only
  split <;> rfl

/-- The loop of `splice_write`, from pass `i` on. -/
def transfers (k : Kernel) (i : ℕ) (w : Splicing) : Splicing :=
  if 0 < w.trycount ∧ k.alive i then
    let ret := k.vmsplice i w.offered
    if ret ≤ 0 then { w with ret := ret } else transfers k (i + 1) (w.transferred ret)
  else w
termination_by w.trycount.toNat
decreasing_by
  rw [trycount_transferred]
  omega

/-- What the loop has seen of the partner thread and of `vmsplice`. -/
def results (k : Kernel) (i : ℕ) (w : Splicing) : List (Bool × ℤ) :=
  if 0 < w.trycount ∧ k.alive i then
    let ret := k.vmsplice i w.offered
    if ret ≤ 0 then [(true, ret)] else (true, ret) :: results k (i + 1) (w.transferred ret)
  else if 0 < w.trycount then [(false, 0)] else []
termination_by w.trycount.toNat
decreasing_by
  rw [trycount_transferred]
  omega

end Splicing

/-! ## What is to be shown -/

namespace Kernel

/-- The partner thread stays alive, and `vmsplice` takes something of what it is offered. -/
structure Progresses (k : Kernel) : Prop where
  alive : ∀ i, k.alive i = true
  pos : ∀ i vs, 0 < Iovec.total vs → 0 < k.vmsplice i vs
  le : ∀ i vs, 0 < Iovec.total vs → k.vmsplice i vs ≤ Iovec.total vs

end Kernel

namespace SpliceOps

variable (sp : SpliceOps) (start count : ℕ)

/-- The vectors of `setup_nvecs`. -/
def cut : List Iovec := (sp.setupNvecs start count).2.vectors (sp.setupNvecs start count).1

/-- The vectors are consecutive pieces of the buffer, of a page at most. -/
structure Cuts : Prop where
  pos : 1 ≤ (sp.setupNvecs start count).1
  le : (sp.setupNvecs start count).1 ≤ sp.maxPipeLength
  page : ∀ v ∈ sp.cut start count, 0 < v.iovLen ∧ v.iovLen ≤ sp.pagesize
  chained : Iovec.Chained start (sp.cut start count)
  inside : ∀ v ∈ sp.cut start count, start ≤ v.iovBase ∧ v.iovBase + v.iovLen ≤ start + count

/-- The loop hands over every byte of the buffer once and in order. -/
def Splices : Prop :=
  ∀ k : Kernel, k.Progresses →
    let w := (Splicing.start sp start count).transfers k 0
    w.handed = List.range' start count ∧ w.totalW = count ∧ w.trycount = 0

/-- No offset of a vector wraps. -/
def Unwrapped : Prop := (sp.maxPipeLength - 1) * sp.pagesize < 2 ^ 32

variable {sp start count} {i n : ℕ} {v : Iovec}

/-- **`init_splice` chooses a pipe whose offsets do not wrap**: the size of the pipe is
an `int`. -/
theorem unwrapped_of_init {maxbytesInpipe : ℕ} (hsize : maxbytesInpipe < 2 ^ 31)
    (h : sp.maxPipeLength = maxbytesInpipe / sp.pagesize) : sp.Unwrapped := by
  have hle : sp.maxPipeLength * sp.pagesize ≤ maxbytesInpipe := by
    rw [h]
    exact Nat.div_mul_le_self _ _
  have hpred : (sp.maxPipeLength - 1) * sp.pagesize ≤ sp.maxPipeLength * sp.pagesize :=
    Nat.mul_le_mul_right _ (Nat.sub_le _ _)
  unfold Unwrapped
  omega

/-! ## One call of `setup_nvecs` -/

theorem offset_eq (h : sp.Unwrapped) (hi : i < sp.maxPipeLength) :
    sp.offset i = i * sp.pagesize := by
  have hle : i * sp.pagesize ≤ (sp.maxPipeLength - 1) * sp.pagesize :=
    Nat.mul_le_mul_right _ (by omega)
  exact Nat.mod_eq_of_lt (lt_of_le_of_lt hle h)

@[simp] theorem maxPipeLength_setVec : (sp.setVec i v).maxPipeLength = sp.maxPipeLength := rfl

@[simp] theorem pagesize_setVec : (sp.setVec i v).pagesize = sp.pagesize := rfl

@[simp] theorem maxPipeLength_wholePages :
    (sp.wholePages start n).maxPipeLength = sp.maxPipeLength := by
  induction n with
  | zero => rfl
  | succ n ih => exact ih

@[simp] theorem pagesize_wholePages : (sp.wholePages start n).pagesize = sp.pagesize := by
  induction n with
  | zero => rfl
  | succ n ih => exact ih

@[simp] theorem maxPipeLength_setupNvecs :
    (sp.setupNvecs start count).2.maxPipeLength = sp.maxPipeLength := by
  unfold setupNvecs
  simp only
  split
  · exact maxPipeLength_wholePages
  · exact maxPipeLength_wholePages

@[simp] theorem pagesize_setupNvecs :
    (sp.setupNvecs start count).2.pagesize = sp.pagesize := by
  unfold setupNvecs
  simp only
  split
  · exact pagesize_wholePages
  · exact pagesize_wholePages

theorem unwrapped_setupNvecs :
    (sp.setupNvecs start count).2.Unwrapped ↔ sp.Unwrapped := by
  unfold Unwrapped
  rw [maxPipeLength_setupNvecs, pagesize_setupNvecs]

/-- A stored vector is the last one. -/
theorem vectors_setVec : (sp.setVec n v).vectors (n + 1) = sp.vectors n ++ [v] := by
  unfold vectors
  rw [List.range_succ, List.map_append, List.map_singleton]
  congr 1
  · refine List.map_congr_left fun i hi => ?_
    exact Function.update_of_ne (List.mem_range.mp hi).ne _ _
  · exact congrArg (fun v => [v]) (Function.update_self _ _ _)

/-- The whole pages, and how long they are. -/
theorem vectors_wholePages (start : ℕ) (h : sp.Unwrapped) (hn : n ≤ sp.maxPipeLength) :
    Iovec.Chained start ((sp.wholePages start n).vectors n) ∧
      Iovec.total ((sp.wholePages start n).vectors n) = n * sp.pagesize ∧
      ∀ v ∈ (sp.wholePages start n).vectors n, v.iovLen = sp.pagesize := by
  induction n with
  | zero => exact ⟨trivial, (Nat.zero_mul _).symm, fun v hv => by cases hv⟩
  | succ n ih =>
      obtain ⟨hchained, htotal, hpage⟩ := ih (by omega)
      have hoffset : sp.offset n = n * sp.pagesize := offset_eq h hn
      rw [wholePages, vectors_setVec, hoffset]
      refine ⟨hchained.append ⟨by rw [htotal], trivial⟩, ?_, fun v hv => ?_⟩
      · rw [Iovec.total_append, htotal, Nat.add_mul, Nat.one_mul]
        rfl
      · obtain hv | hv := List.mem_append.mp hv
        · exact hpage v hv
        · rw [List.mem_singleton.mp hv]

/-- **One call of `setup_nvecs`**: the whole pages that the pipe has room for, and what is
left behind them if there is room for that as well. -/
theorem cut_spec (start : ℕ) (h : sp.Unwrapped) (hcount : 0 < count) :
    Iovec.Chained start (sp.cut start count) ∧
      0 < Iovec.total (sp.cut start count) ∧ Iovec.total (sp.cut start count) ≤ count ∧
      ∀ v ∈ sp.cut start count, 0 < v.iovLen ∧ v.iovLen ≤ sp.pagesize := by
  have hpage := sp.pagesize_pos
  have hpipe := sp.maxPipeLength_pos
  have hdiv : count / sp.pagesize * sp.pagesize + count % sp.pagesize = count := by
    rw [Nat.mul_comm]
    exact Nat.div_add_mod _ _
  obtain ⟨hchained, htotal, hlen⟩ := vectors_wholePages start h
    (Nat.min_le_left sp.maxPipeLength (count / sp.pagesize))
  have hwhole : min sp.maxPipeLength (count / sp.pagesize) * sp.pagesize ≤
      count / sp.pagesize * sp.pagesize := Nat.mul_le_mul_right _ (Nat.min_le_right _ _)
  unfold cut setupNvecs
  simp only
  split
  · rename_i hroom
    have hoffset := offset_eq h hroom.1
    rw [vectors_setVec, hoffset]
    refine ⟨hchained.append ⟨by rw [htotal], trivial⟩, ?_, ?_, fun v hv => ?_⟩
    · rw [Iovec.total_append, Iovec.total_cons]
      show 0 < _ + (count % sp.pagesize + 0)
      omega
    · rw [Iovec.total_append, htotal, Iovec.total_cons, Iovec.total_nil]
      show _ + (count % sp.pagesize + 0) ≤ count
      omega
    · obtain hv | hv := List.mem_append.mp hv
      · rw [hlen v hv]
        exact ⟨hpage, le_rfl⟩
      · rw [List.mem_singleton.mp hv]
        exact ⟨Nat.pos_of_ne_zero hroom.2, (Nat.mod_lt _ hpage).le⟩
  · rename_i hfull
    refine ⟨hchained, ?_, ?_, fun v hv => ?_⟩
    · -- without a whole page the rest would have found room
      have hsome : 0 < min sp.maxPipeLength (count / sp.pagesize) := by
        refine Nat.pos_of_ne_zero fun hnone => ?_
        have hzero : count / sp.pagesize = 0 :=
          (Nat.min_eq_zero_iff.mp hnone).resolve_left hpipe.ne'
        rw [hzero, Nat.zero_mul, Nat.zero_add] at hdiv
        refine hfull ⟨hnone ▸ hpipe, ?_⟩
        rw [hdiv]
        exact hcount.ne'
      rw [htotal]
      exact Nat.mul_pos hsome hpage
    · rw [htotal]
      omega
    · rw [hlen v hv]
      exact ⟨hpage, le_rfl⟩

theorem setupNvecs_le : (sp.setupNvecs start count).1 ≤ sp.maxPipeLength := by
  unfold setupNvecs
  simp only
  split
  · exact ‹_ ∧ _›.1
  · exact Nat.min_le_left _ _

theorem cuts (h : sp.Unwrapped) (hcount : 0 < count) : sp.Cuts start count := by
  obtain ⟨hchained, hpos, hle, hpage⟩ := cut_spec start h hcount
  refine ⟨Nat.pos_of_ne_zero fun hzero => ?_, setupNvecs_le, hpage, hchained, fun v hv => ?_⟩
  · have hnone : sp.cut start count = [] := by
      rw [cut, hzero]
      rfl
    rw [hnone] at hpos
    exact Nat.lt_irrefl _ hpos
  · have hin := hchained.inside hv
    omega

end SpliceOps

/-! ## The loop -/

namespace Splicing

open SpliceOps

variable {start count : ℕ} {w : Splicing} {ret : ℤ} {k : Kernel}

/-- **The invariant of the loop**: the first bytes of the buffer are handed over. -/
structure Sound (start count : ℕ) (w : Splicing) : Prop where
  point : w.pointToStart = start + w.handed.length
  handed : w.handed = List.range' start w.handed.length
  totalW : w.totalW = w.handed.length
  left : w.trycount = count - w.handed.length
  nonneg : 0 ≤ w.trycount
  ret : 0 ≤ w.ret
  unwrapped : w.sp.Unwrapped

/-- What is offered is cut from what is left. -/
structure Offers (w : Splicing) : Prop where
  chained : Iovec.Chained w.pointToStart w.offered
  pos : 0 < Iovec.total w.offered
  le : Iovec.total w.offered ≤ w.trycount

theorem Sound.setup (h : w.Sound start count) : w.setup.Sound start count where
  point := h.point
  handed := h.handed
  totalW := h.totalW
  left := h.left
  nonneg := h.nonneg
  ret := h.ret
  unwrapped := unwrapped_setupNvecs.mpr h.unwrapped

theorem Sound.offers_setup (h : w.Sound start count) (hleft : 0 < w.trycount) :
    w.setup.Offers := by
  obtain ⟨hchained, hpos, hle, -⟩ :=
    cut_spec w.pointToStart h.unwrapped (show 0 < w.trycount.toNat by omega)
  refine ⟨hchained, hpos, ?_⟩
  show (Iovec.total (w.sp.cut w.pointToStart w.trycount.toNat) : ℤ) ≤ w.trycount
  omega

/-- **One transfer.** -/
theorem Sound.transferred (h : w.Sound start count) (hoffers : w.Offers) (hpos : 0 < ret)
    (hle : ret ≤ Iovec.total w.offered) : (w.transferred ret).Sound start count ∧
      (0 < (w.transferred ret).trycount → (w.transferred ret).Offers) := by
  have hfits : ret.toNat ≤ Iovec.total w.offered := by omega
  have htook := hoffers.chained.take_gather hfits
  have hlength : (w.handed ++ (Iovec.gather w.offered).take ret.toNat).length =
      w.handed.length + ret.toNat := by
    rw [htook, List.length_append, List.length_range']
  have hoffered := hoffers.le
  -- the state before the buffer is cut anew
  let next : Splicing :=
    { sp := w.sp
      pointToStart := w.pointToStart + ret.toNat
      trycount := w.trycount - ret
      ret := ret
      totalW := w.totalW + ret
      nVecs := w.nVecs
      handed := w.handed ++ (Iovec.gather w.offered).take ret.toNat }
  have hnext : next.Sound start count := by
    refine ⟨?_, ?_, ?_, ?_, by show 0 ≤ w.trycount - ret; omega, hpos.le, h.unwrapped⟩
    · show w.pointToStart + ret.toNat = start + _
      rw [hlength, h.point, Nat.add_assoc]
    · show w.handed ++ _ = List.range' start (List.length (w.handed ++ _))
      rw [hlength, htook, h.point, ← List.range'_append_1, ← h.handed]
    · show w.totalW + ret = (List.length (w.handed ++ _) : ℕ)
      rw [hlength, h.totalW]
      omega
    · show w.trycount - ret = count - (List.length (w.handed ++ _) : ℕ)
      rw [hlength, h.left]
      omega
  by_cases hleft : 0 < w.trycount - ret
  · have hcut : w.transferred ret = next.setup := if_pos hleft
    rw [hcut]
    exact ⟨hnext.setup, fun _ => hnext.offers_setup hleft⟩
  · have hdone : w.transferred ret = next := if_neg hleft
    rw [hdone]
    exact ⟨hnext, fun hmore => absurd hmore hleft⟩

theorem sound_start {sp : SpliceOps} (start : ℕ) (h : sp.Unwrapped) (hlt : count < 2 ^ 63) :
    (Splicing.start sp start count).Sound start count := by
  have hlong : (Splicing.start sp start count).trycount = count := by
    rw [trycount_start, toLong_eq hlt]
  refine ⟨rfl, rfl, rfl, ?_, ?_, le_rfl, ?_⟩
  · rw [hlong]
    exact (sub_zero _).symm
  · rw [hlong]
    exact Int.natCast_nonneg _
  · have hsetup : (sp.setupNvecs start count).2.Unwrapped := unwrapped_setupNvecs.mpr h
    exact hsetup

/-- **The whole loop.** -/
theorem Sound.transfers {i : ℕ} (h : w.Sound start count) (hoffers : 0 < w.trycount → w.Offers)
    (hk : k.Progresses) :
    (w.transfers k i).Sound start count ∧ (w.transfers k i).trycount = 0 := by
  fun_induction Splicing.transfers k i w with
  | case1 i w hcond ret hstop =>
      have hpos := hk.pos i _ (hoffers hcond.1).pos
      exact absurd hstop (not_le.mpr hpos)
  | case2 i w hcond ret hgo ih =>
      have hnow := hoffers hcond.1
      obtain ⟨hnext, hmore⟩ := h.transferred hnow (hk.pos i _ hnow.pos) (hk.le i _ hnow.pos)
      exact ih hnext hmore
  | case3 i w hcond =>
      have hzero : ¬ 0 < w.trycount := fun hpos => hcond ⟨hpos, hk.alive i⟩
      exact ⟨h, le_antisymm (not_lt.mp hzero) h.nonneg⟩

theorem offers_start {sp : SpliceOps} (h : sp.Unwrapped) (hpos : 0 < count)
    (hlt : count < 2 ^ 63) : (Splicing.start sp start count).Offers := by
  obtain ⟨hchained, htotal, hle, -⟩ := cut_spec start h hpos
  refine ⟨hchained, htotal, ?_⟩
  rw [trycount_start, toLong_eq hlt]
  exact Int.ofNat_le.mpr hle

/-- **What `splice_write` has done when its loop ends.** -/
theorem transfers_start {sp : SpliceOps} (start : ℕ) (h : sp.Unwrapped) (hpos : 0 < count)
    (hlt : count < 2 ^ 63) (hk : k.Progresses) :
    ((Splicing.start sp start count).transfers k 0).Sound start count ∧
      ((Splicing.start sp start count).transfers k 0).handed.length = count ∧
      ((Splicing.start sp start count).transfers k 0).trycount = 0 := by
  obtain ⟨hsound, hzero⟩ :=
    (sound_start start h hlt).transfers (fun _ => offers_start h hpos hlt) hk (i := 0)
  have hleft := hsound.left
  exact ⟨hsound, by omega, hzero⟩

/-- The loop that knows nothing of vectors, on the same results. -/
theorem spliceLoop_results (k : Kernel) (i : ℕ) (w : Splicing) :
    spliceLoop (results k i w) w.trycount w.ret w.totalW =
      some ((w.transfers k i).ret, (w.transfers k i).totalW) := by
  fun_induction Splicing.transfers k i w with
  | case1 i w hcond ret hstop =>
      rw [results, if_pos hcond, if_pos hstop, spliceLoop, if_neg (by simp [hcond.1]),
        if_pos hstop]
  | case2 i w hcond ret hgo ih =>
      rw [results, if_pos hcond, if_neg hgo, spliceLoop, if_neg (by simp [hcond.1]),
        if_neg hgo, ← ih, trycount_transferred, ret_transferred, totalW_transferred]
  | case3 i w hcond =>
      rw [results, if_neg hcond]
      by_cases hleft : 0 < w.trycount
      · rw [if_pos hleft, spliceLoop, if_pos (.inr rfl)]
      · rw [if_neg hleft, spliceLoop, if_pos (not_lt.mp hleft)]

end Splicing

/-! ## The splice writer -/

namespace SpliceOps

variable {sp : SpliceOps} {start count : ℕ}

/-- **The vectors are consecutive pages of the buffer, and every byte of it is handed
over once and in order**, for a pipe whose offsets do not wrap and a buffer whose size
is a `long`. -/
theorem cuts_and_splices (h : sp.Unwrapped) (hpos : 0 < count) (hlt : count < 2 ^ 63) :
    sp.Cuts start count ∧ sp.Splices start count := by
  refine ⟨cuts h hpos, fun k hk => ?_⟩
  obtain ⟨hsound, hlength, hzero⟩ := Splicing.transfers_start start h hpos hlt hk
  refine ⟨?_, ?_, hzero⟩
  · rw [hsound.handed, hlength]
  · rw [hsound.totalW, hlength]

/-- Two vectors of four bytes. -/
def twoPages : SpliceOps where
  iov _ := ⟨0, 0⟩
  maxPipeLength := 2
  pagesize := 4
  maxPipeLength_pos := Nat.two_pos
  maxPipeLength_le := by decide
  pagesize_pos := Nat.succ_le_succ (Nat.zero_le 3)
  pagesize_lt := by decide

/-- Ten bytes in transfers of three. -/
theorem cuts_and_splices_twoPages :
    twoPages.Cuts 3 10 ∧ twoPages.cut 3 10 = [⟨3, 4⟩, ⟨7, 4⟩] ∧
      ((Splicing.start twoPages 3 10).transfers
        ⟨fun _ => true, fun _ vs => min 3 (Iovec.total vs)⟩ 0).handed =
          [3, 4, 5, 6, 7, 8, 9, 10, 11, 12] := by
  have hunwrapped : twoPages.Unwrapped := by
    unfold Unwrapped
    decide
  obtain ⟨hcuts, hsplices⟩ : twoPages.Cuts 3 10 ∧ twoPages.Splices 3 10 :=
    cuts_and_splices hunwrapped (by decide) (by decide)
  refine ⟨hcuts, by decide, (hsplices _ ⟨fun _ => rfl, fun _ vs hpos => ?_, ?_⟩).1⟩
  · show 0 < min 3 (Iovec.total vs : ℤ)
    omega
  · exact fun _ vs _ => min_le_right _ _

/-- Five vectors of 2^30 bytes. -/
def widePages : SpliceOps where
  iov _ := ⟨0, 0⟩
  maxPipeLength := 5
  pagesize := 2 ^ 30
  maxPipeLength_pos := by decide
  maxPipeLength_le := by decide
  pagesize_pos := by decide
  pagesize_lt := by decide

/-- **The offset of the fifth vector is zero again, and 2^63 bytes are no bytes.** -/
theorem not_cuts_and_splices :
    ¬ widePages.Cuts 0 (5 * 2 ^ 30) ∧ ¬ twoPages.Splices 0 (2 ^ 63) := by
  constructor
  · intro h
    have hcut : widePages.cut 0 (5 * 2 ^ 30) =
        [⟨0, 2 ^ 30⟩, ⟨2 ^ 30, 2 ^ 30⟩, ⟨2 * 2 ^ 30, 2 ^ 30⟩, ⟨3 * 2 ^ 30, 2 ^ 30⟩,
          ⟨0, 2 ^ 30⟩] := by decide +kernel
    have hchained := h.chained
    rw [hcut] at hchained
    exact absurd hchained.2.2.2.2.1 (by decide)
  · intro h
    have hk : (⟨fun _ => true, fun _ vs => Iovec.total vs⟩ : Kernel).Progresses :=
      ⟨fun _ => rfl, fun _ vs hpos => Int.natCast_pos.mpr hpos, fun _ vs _ => le_rfl⟩
    have hleft : toLong (2 ^ 63) = -2 ^ 63 := by decide
    have hnothing := (h _ hk).2.2
    rw [Splicing.transfers, if_neg, Splicing.trycount_start, hleft] at hnothing
    · exact absurd hnothing (by decide)
    · rw [Splicing.trycount_start, hleft]
      exact fun hgo => absurd hgo.1 (by decide)

/-- Without an error of `vmsplice` or of the partner thread, `total_w` is returned. -/
theorem spliceWrite_of_loop {calls : List (Bool × ℤ)} {ret totalW : ℤ}
    (h : spliceLoop calls count 0 0 = some (ret, totalW)) (hret : 0 ≤ ret) :
    spliceWrite true false count calls = some totalW := by
  simp [spliceWrite, h, hret]

/-- **`splice_write` returns the size of the buffer.** -/
theorem spliceWrite_results {k : Kernel} (h : sp.Unwrapped) (hpos : 0 < count)
    (hlt : count < 2 ^ 63) (hk : k.Progresses) :
    spliceWrite true false count (Splicing.results k 0 (Splicing.start sp start count)) =
      some (count : ℤ) := by
  obtain ⟨hsound, hlength, -⟩ := Splicing.transfers_start start h hpos hlt hk
  have hrun := Splicing.spliceLoop_results k 0 (Splicing.start sp start count)
  rw [Splicing.trycount_start, toLong_eq hlt, Splicing.ret_start, Splicing.totalW_start,
    hsound.totalW, hlength] at hrun
  exact spliceWrite_of_loop hrun hsound.ret

end SpliceOps

end VlbiStreamer.Recorder
