import Nadir.Allocators
import Nadir.Boot.LongMode
import Nadir.Kmalloc.Pool

/-!
# What the clients of the allocators cannot reach

Frame clients and heap clients write to frames that were free behind `pmm_init` and to no others.
The kernel also writes bytes of its own, outside these frames: `bitmap`, `g_free`, `g_usable`,
`g_free_list`, `g_free_frames` and `g_used_frames`, which the model of the allocators keeps beside
memory, its stack, the screen. And the processor marks the page tables. Everything else, in the
image and the rest of the low 1 MB, stays as the boot left it, and the accesses of the heap, which
the model makes to flat memory, are those of a processor that goes through the tables on every one.
-/

namespace Nadir

open ByteMem Modes Paging Tiling Transition

/-- Outside the frames the memory is as it was. -/
def FramesOnly (U : Finset ℕ) (m m' : Mem) : Prop := ∀ b, b / 4096 ∉ U → m' b = m b

/-- Outside the frames and the kernel's own bytes the memory is as it was, the tables but for the
marks of the processor. -/
structure WritesOnly (U : Finset ℕ) (own : Set ℕ) (m m' : Mem) : Prop where
  outside : ∀ b, b / 4096 ∉ U → b ∉ own → b ∉ stage2Tables → m' b = m b
  tables : ∀ b ∈ stage2Tables, unmarked m' b = unmarked m b

theorem WritesOnly.trans {U : Finset ℕ} {own : Set ℕ} {m m' m'' : Mem} (h : WritesOnly U own m m')
    (h' : WritesOnly U own m' m'') : WritesOnly U own m m'' :=
  ⟨fun b hb hown htables => (h'.outside b hb hown htables).trans (h.outside b hb hown htables),
    fun b hb => (h'.tables b hb).trans (h.tables b hb)⟩

theorem WritesOnly.mono {U : Finset ℕ} {own : Set ℕ} {m m' : Mem} (h : WritesOnly ∅ own m m') :
    WritesOnly U own m m' :=
  ⟨fun b _ => h.outside b (Finset.notMem_empty _), h.tables⟩

theorem FramesOnly.writesOnly {U : Finset ℕ} (hhigh : ∀ frame ∈ U, 256 ≤ frame) {m m' : Mem}
    (h : FramesOnly U m m') (own : Set ℕ) : WritesOnly U own m m' := by
  refine ⟨fun b hb _ _ => h b hb, fun b hb => unmarked_congr (h b fun hmem => ?_)⟩
  have hframe := hhigh _ hmem
  have hhi : b < 0x73000 := hb.2
  omega

theorem WritesOnly.tablesInPlace {U : Finset ℕ} {own : Set ℕ} {m m' : Mem}
    (h : WritesOnly U own m m') (htables : TablesInPlace m) : TablesInPlace m' := by
  obtain ⟨m₀, hm⟩ := htables
  exact ⟨m₀, hm.congr fun b hlo hhi => h.tables b ⟨hlo, hhi⟩⟩

/-- The bytes the kernel writes besides the frames that were free. -/
structure OwnBytes (U : Finset ℕ) where
  bytes : Set ℕ
  away : ∀ b ∈ bytes, b / 4096 ∉ U

inductive MachineOp where
  | allocator (op : AllocatorOp)
  | own

/-- The clients of the allocators, and in between the kernel's own writes and the processor's. -/
inductive MachineStep (own : Set ℕ) : Allocators → MachineOp → Allocators → Prop
  | allocator {s s' : Allocators} {op : AllocatorOp} (hstep : AllocatorStep s op s') :
      MachineStep own s (.allocator op) s'
  | own {s : Allocators} {m : Mem} (hwrites : WritesOnly ∅ own s.heap.heap.mem m) :
      MachineStep own s .own ⟨s.frames, ⟨{ s.heap.heap with mem := m }, s.heap.live⟩⟩

variable {p₀ p : Pmm} {h : Heap} {lo n : ℕ} {a : Arena lo n}

theorem kmallocInit_framesOnly (hzero : 0 ∉ freeFrames p₀) {h₀ : Heap}
    (hinit : kmallocInit p₀ h₀ = .ok (p, h)) : FramesOnly (freeFrames p₀) h₀.mem h.mem := by
  rcases (freeFrames p₀).eq_empty_or_nonempty with hempty | hne
  · rw [kmallocInit_empty hempty] at hinit
    cases hinit
    exact fun _ _ => rfl
  · have hleast := (freeFrames p₀).isLeast_min' hne
    have hmem : (freeFrames p₀).min' hne ∈ freeFrames p₀ := Finset.min'_mem _ hne
    generalize (freeFrames p₀).min' hne = f at hleast hmem
    have hpos : 0 < f := Nat.pos_of_ne_zero fun h => hzero (h ▸ hmem)
    obtain ⟨j, p', heq, _⟩ := kmallocInit_taken hleast hpos h₀
    rw [heq] at hinit
    cases hinit
    intro b hb
    have hout : b / 4096 ≠ f := fun h => hb (h ▸ hmem)
    change store64 (store64 h₀.mem (4096 * f) 0) (4096 * f + 8) (UInt64.ofNat j) b = h₀.mem b
    rw [store64_of_outside _ _ (by omega), store64_of_outside _ _ (by omega)]

theorem HeapState.Represents.framesOnly {s s' : HeapState} {op : HeapOp} (hp : PoolOk lo n)
    (hr : s.Represents a) (hstep : HeapStep s op s') :
    FramesOnly (Finset.Ico lo (lo + n)) s.heap.mem s'.heap.mem := by
  intro b hb
  cases hstep with
  | kmalloc fuel hsize hrun =>
    obtain ⟨_, rfl⟩ | ⟨t, rest, hfit, _, _, _, hout⟩ := hr.kmalloc_cases hp hsize hrun
    · rfl
    · apply hout
      intro r hmem hin
      have hbounds := a.bounds_free hmem
      rw [Finset.mem_Ico] at hb
      unfold InRun at hin
      omega
  | kfree hlive hrun =>
    obtain ⟨_, _, hout⟩ := hr.kfree hp hlive hrun
    exact hout b fun hin => hb (hr.block_mem hp hlive hin)
  | @write c addr v hlive hin =>
    have hcontains := (@HeapState.Represents.write _ _ _ _ hp hr _ _ v hlive hin).2
    apply Function.update_of_ne
    rintro rfl
    exact hb (hr.block_mem hp hlive hcontains)

theorem HeapStart.pool_subset (hs : HeapStart p₀ p h a) :
    Finset.Ico lo (lo + n) ⊆ freeFrames p₀ := by
  intro frame hmem
  rw [Finset.mem_Ico] at hmem
  exact (hs.taken frame hmem.1 hmem.2).1

theorem Allocators.Sound.framesOnly (hs : HeapStart p₀ p h a) (hexact : CounterExact p)
    (h0 : 0 ∉ freeFrames p) {s s' : Allocators} {op : AllocatorOp} (hsound : s.Sound p lo n)
    (hstep : AllocatorStep s op s') :
    FramesOnly (freeFrames p₀) s.heap.heap.mem s'.heap.heap.mem := by
  cases hstep with
  | pmmAllocFrame => exact fun _ _ => rfl
  | pmmFreeFrame => exact fun _ _ => rfl
  | @writeFrame addr b v hheld hlo hhi =>
    obtain ⟨o, ho⟩ := hsound.frames.represents hexact h0
    obtain ⟨frame, hown, rfl⟩ := (ho.mem_held addr).mp hheld
    have hfree : frame ∈ freeFrames p := o.held_subset hown
    rw [frameAddr_toNat (lt_of_mem_freeFrames hfree)] at hlo hhi
    have hframe : b / 4096 = frame := by omega
    intro b' hb'
    apply Function.update_of_ne
    rintro rfl
    exact hb' (hframe ▸ hs.subset hfree)
  | heap hstep =>
    obtain ⟨a', hr⟩ := hsound.heap
    intro b hb
    exact hr.framesOnly hs.pool hstep b fun hmem => hb (hs.pool_subset hmem)

theorem Allocators.Sound.machineStep (hs : HeapStart p₀ p h a) (hexact : CounterExact p)
    (hhigh : ∀ frame ∈ freeFrames p₀, 256 ≤ frame) (own : OwnBytes (freeFrames p₀))
    {s s' : Allocators} {op : MachineOp} (hsound : s.Sound p lo n)
    (hstep : MachineStep own.bytes s op s') :
    s'.Sound p lo n ∧
      WritesOnly (freeFrames p₀) own.bytes s.heap.heap.mem s'.heap.heap.mem := by
  have h0 : 0 ∉ freeFrames p := fun hmem => absurd (hhigh 0 (hs.subset hmem)) (by decide)
  cases hstep with
  | allocator hstep =>
    exact ⟨hsound.step hs hexact h0 hstep,
      (hsound.framesOnly hs hexact h0 hstep).writesOnly hhigh own.bytes⟩
  | own hwrites =>
    refine ⟨⟨hsound.frames, ?_⟩, hwrites.mono⟩
    obtain ⟨a', hrep⟩ := hsound.heap
    refine ⟨a', hrep.congr hs.pool fun b hb => ?_⟩
    have hfree := hs.pool_subset hb
    have hframe := hhigh _ hfree
    apply hwrites.outside b (Finset.notMem_empty _) (fun hown => own.away b hown hfree)
    rintro ⟨_, hhi⟩
    omega

/-- Nothing changed but marks in the page tables. -/
abbrev MarksOnly (m m' : Mem) : Prop := WritesOnly ∅ ∅ m m'

theorem marksOnly_of_backs {m₀ seen m : Mem} (hseen : TablesOf m₀ seen)
    (hm : BacksPaged m₀ seen m) : MarksOnly seen m :=
  ⟨fun _ _ _ htables => hm.eqOn htables,
    fun b hb => (hm.holds b hb.1 hb.2).trans (hseen b hb.1 hb.2).symm⟩

/-- Outside the tables the accesses of the heap are those a processor makes through them: it reads
the same words and faults on the same addresses, and it writes the same words. -/
structure Heap.Paged (h : Heap) (c : Control) : Prop where
  load : ∀ addr, Canonical addr → (addr.toNat + 8 ≤ 0x70000 ∨ 0x73000 ≤ addr.toNat) → ∀ v,
    h.load addr = .ok v ↔
      ∃ m, State.loadLE addr.toNat 8 ⟨c, h.mem⟩ = .ok (v.toNat, ⟨c, m⟩) ∧ MarksOnly h.mem m
  store : ∀ addr v h', h.store addr v = .ok h' →
    (addr.toNat + 8 ≤ 0x70000 ∨ 0x73000 ≤ addr.toNat) →
    ∃ m, State.storeLE addr.toNat v.toNat 8 ⟨c, h.mem⟩ = .ok ⟨c, m⟩ ∧ MarksOnly h'.mem m

theorem translate_high {c : Control} (hpg : c.pg = true) (hcr3 : c.cr3 = 0x70000) {m₀ m : Mem}
    (hm : TablesOf m₀ m) {v : UInt64} (hcanonical : Canonical v) (hv : 0x40000000 ≤ v.toNat) :
    State.translate v.toNat ⟨c, m⟩ = .error (.pageFault v.toNat) := by
  obtain ⟨level, hwalk⟩ := hm.walk_high hcanonical hv
  have hroot : c.cr3.toUInt64 = pml4 := by
    rw [hcr3]
    rfl
  rw [State.translate]
  dsimp only
  rw [hpg, if_neg Bool.noConfusion, hroot, UInt64.ofNat_toNat, hwalk]

theorem loadLE_high {c : Control} (hpg : c.pg = true) (hcr3 : c.cr3 = 0x70000) {m₀ m : Mem}
    (hm : TablesOf m₀ m) {addr : UInt64} (hcanonical : Canonical addr)
    (hhigh : 0x40000000 < addr.toNat + 8) :
    ∃ e, State.loadLE addr.toNat 8 ⟨c, m⟩ = .error e := by
  rcases Nat.lt_or_ge 0x40000000 addr.toNat with hlt | hle
  · refine ⟨.pageFault addr.toNat, ?_⟩
    rw [State.loadLE, State.loadByte, State.access, translate_high hpg hcr3 hm hcanonical hlt.le]
    rfl
  · refine (identity_paged hpg hcr3 m₀).loadLE_error hm (fun m' hm' => ?_) hle hhigh
    have hedge := translate_high hpg hcr3 hm' (v := 0x40000000) (.inl (by decide)) le_rfl
    exact ⟨_, hedge⟩

theorem Heap.paged {c : Control} (hpg : c.pg = true) (hcr3 : c.cr3 = 0x70000) {h : Heap}
    (hm : TablesInPlace h.mem) : h.Paged c := by
  obtain ⟨m₀, hm⟩ := hm
  have hident := identity_paged hpg hcr3 m₀
  constructor
  case load =>
    intro addr hcanonical haway v
    by_cases hle : addr.toNat + 8 ≤ 0x40000000
    · have hlt : ByteMem.loadLE h.mem addr.toNat 8 < 2 ^ 64 := loadLE_lt h.mem addr.toNat 8
      obtain ⟨m, hload, hback⟩ := hident.loadLE (.self hm) hle
        (fun b _ _ => notMem_stage2Tables (by omega))
      have hflat : h.load addr = .ok v ↔ ByteMem.loadLE h.mem addr.toNat 8 = v.toNat := by
        rw [h.load_of_le hle, load64, Except.ok.injEq, ← UInt64.toNat_inj, UInt64.toNat_ofNat',
          Nat.mod_eq_of_lt hlt]
      rw [hflat, hload]
      constructor
      · intro hv
        exact ⟨m, by rw [hv], marksOnly_of_backs hm hback⟩
      · rintro ⟨_, hsame, _⟩
        exact congrArg Prod.fst (Except.ok.inj hsame)
    · obtain ⟨e, herror⟩ := loadLE_high hpg hcr3 hm hcanonical (Nat.lt_of_not_le hle)
      rw [Heap.load, if_neg hle, herror]
      constructor
      · intro hload
        cases hload
      · rintro ⟨_, hload, _⟩
        cases hload
  case store =>
    intro addr v h' hstore haway
    by_cases hle : addr.toNat + 8 ≤ 0x40000000
    · rw [h.store_of_le hle] at hstore
      cases hstore
      obtain ⟨m, hrun, hback⟩ := hident.storeLE (.self hm) v.toNat hle
        (fun b _ _ => notMem_stage2Tables (by omega))
      refine ⟨m, hrun, marksOnly_of_backs ?_ hback⟩
      exact hm.congr fun b _ _ => unmarked_congr (store64_of_outside _ _ (by omega))
    · rw [Heap.store, if_neg hle] at hstore
      cases hstore

/-- Nothing but frames that were free and the kernel's own bytes was written, so nothing else in the
low 1 MB and the image changed; in the page tables nothing but marks did, and they still map the
first 1 GB to itself. -/
structure Allocators.Isolated (k : KernelImage) (U : Finset ℕ) (own : Set ℕ) (m₀ : Mem)
    (s : Allocators) : Prop where
  writes : WritesOnly U own m₀ s.heap.heap.mem
  low : ∀ b < 0x100000, b ∉ own → b ∉ stage2Tables → s.heap.heap.mem b = m₀ b
  image : ∀ b, b / 4096 ∈ imageFrames k → b ∉ own → b ∉ stage2Tables → s.heap.heap.mem b = m₀ b
  identity : TablesInPlace m₀ → ∀ c : Control, c.pg = true → c.cr3 = 0x70000 →
    (∀ addr < 0x40000000, State.translate addr ⟨c, s.heap.heap.mem⟩ = .ok (addr, true)) ∧
    s.heap.heap.Paged c

theorem WritesOnly.isolated {k : KernelImage} {count : UInt32} {t : E820Table} {own : Set ℕ}
    {m₀ : Mem} {s : Allocators}
    (h : WritesOnly (freeFrames (pmmInit k count t)) own m₀ s.heap.heap.mem) :
    s.Isolated k (freeFrames (pmmInit k count t)) own m₀ := by
  constructor
  case writes => exact h
  case low =>
    intro b hb
    apply h.outside b
    intro hmem
    have hframe := ((mem_freeFrames_pmmInit k count t (b / 4096)).mp hmem).2.2.1
    omega
  case image =>
    intro b himage
    apply h.outside b
    intro hmem
    exact ((mem_freeFrames_pmmInit k count t (b / 4096)).mp hmem).2.2.2 himage
  case identity =>
    intro htables c hpg hcr3
    have htables' := h.tablesInPlace htables
    obtain ⟨m₁, hm₁⟩ := htables'
    exact ⟨(identity_paged hpg hcr3 m₁).translate hm₁, Heap.paged hpg hcr3 ⟨m₁, hm₁⟩⟩

/-- Whatever the memory map, in every interleaving of frame clients, heap clients and the kernel's
own writes from `kmalloc_init` on, only frames that were free behind `pmm_init` and the kernel's own
bytes are ever written, besides the marks of the processor. No frame gets two owners, the page
tables stay in place, and every access of the heap is the one a processor makes through them. -/
theorem allocators_isolated (k : KernelImage) (count : UInt32) (t : E820Table) (h₀ : Heap)
    (own : OwnBytes (freeFrames (pmmInit k count t))) :
    ∃ p h, kmallocInit (pmmInit k count t) h₀ = .ok (p, h) ∧
      ∀ ops s, Steps (MachineStep own.bytes) ⟨⟨p, []⟩, ⟨h, []⟩⟩ ops s →
        s.Isolated k (freeFrames (pmmInit k count t)) own.bytes h₀.mem ∧
        s.Exclusive (heapPool h) := by
  obtain ⟨p, h, lo, n, a, hinit, hstart⟩ := kmallocInit_spec (pmmInit k count t) h₀
  have hhigh : ∀ frame ∈ freeFrames (pmmInit k count t), 256 ≤ frame :=
    fun frame hmem => ((mem_freeFrames_pmmInit k count t frame).mp hmem).2.2.1
  have hzero := zero_notMem_freeFrames_pmmInit k count t
  have hexact : CounterExact p := hstart.counter (reserving_pmmInit k count t).1
  refine ⟨p, h, hinit, fun ops s hrun => ?_⟩
  have hkept : s.Sound p lo n ∧
      WritesOnly (freeFrames (pmmInit k count t)) own.bytes h₀.mem s.heap.heap.mem := by
    apply hrun.invariant _ ⟨⟨.start, hstart.sound⟩,
      (kmallocInit_framesOnly hzero hinit).writesOnly hhigh own.bytes⟩
    intro t op u ⟨hsound, hwrites⟩ hstep
    obtain ⟨hsound', hwrites'⟩ := hsound.machineStep hstart hexact hhigh own hstep
    exact ⟨hsound', hwrites.trans hwrites'⟩
  refine ⟨hkept.2.isolated, ?_⟩
  rw [hstart.heapPool_eq]
  exact hkept.1.exclusive hstart hexact fun hmem => hzero (hstart.subset hmem)

end Nadir
