import Aivm.Storage.Covered

/-!
# Every event keeps the storage standing

For each function on an arena, how it leaves the arena standing; and from these, for each event, how it leaves the VM.
-/

namespace Aivm

/-! ## How an arena stands -/

/-- The size on record is right; storage that was claimed is there; and where it also fits, it covers the capacity. -/
structure ByteArena.Stands (a : ByteArena) (claimed fits : Bool) : Prop where
  recorded : ∀ n ∈ a.allocated, n = a.storageCapacity
  present : claimed = true → a.allocated.isSome ∧ a.used ≤ a.limit
  within : claimed = true → fits = true → a.limit ≤ a.capacity ∧ a.capacity ≤ a.storageCapacity

/-- A node arena that fits is no smaller than its capacity, and there is one once storage has been claimed. -/
structure NodeArena.Stands (a : NodeArena) (claimed fits : Bool) : Prop where
  present : claimed = true → a.allocated.isSome
  within : fits = true → ∀ n ∈ a.allocated, a.capacity ≤ n

namespace ByteArena

variable {a : ByteArena} {claimed fits : Bool}

theorem Stands.covers (h : a.Stands true true) : a.Covers := by
  obtain ⟨hsome, hused⟩ := h.present rfl
  obtain ⟨hlimit, hcap⟩ := h.within rfl rfl
  obtain ⟨n, hn⟩ := Option.isSome_iff_exists.1 hsome
  exact ⟨by simp [hn, h.recorded n hn], hcap, hused, hlimit⟩

theorem Covers.stands (h : a.Covers) : a.Stands claimed fits where
  recorded n hn := by simpa [h.recorded, eq_comm] using hn
  present _ := ⟨by simp [h.recorded], h.used_le⟩
  within _ _ := ⟨h.limit_le, h.capacity_le⟩

/-- The size on record, which is all that is left of storage that could not be claimed. -/
theorem Stands.unclaimed (h : a.Stands claimed fits) : a.Stands false fits := ⟨h.recorded, nofun, nofun⟩

/-- A new capacity that fits or not. -/
theorem Stands.setCapacity {capacity : Nat} {fits' : Bool} (h : a.Stands claimed fits)
    (hf : fits' = true → a.limit ≤ capacity ∧ capacity ≤ a.storageCapacity) :
    ({ a with capacity := capacity } : ByteArena).Stands claimed fits' :=
  ⟨h.recorded, h.present, fun _ => hf⟩

theorem ensure_recorded (granted : Bool) (defaultCapacity : Nat) (h : a.Stands claimed fits) :
    (a.ensure granted defaultCapacity).Stands false true := by
  have hr := h.recorded
  dsimp only [ensure]
  generalize (if a.capacity = 0 then defaultCapacity else a.capacity) = capacity
  split
  · exact ⟨by simp, nofun, nofun⟩
  · exact ⟨hr, nofun, nofun⟩

/-- What `aivm_vm_ensure_storage` has checked covers the capacity after the reset. -/
theorem reset_covers {initialCapacity : Nat} (h : a.Stands claimed fits) (ha : a.allocated.isSome)
    (hc : a.capacity ≤ a.storageCapacity) : (a.reset initialCapacity).Covers := by
  obtain ⟨n, hn⟩ := Option.isSome_iff_exists.1 ha
  exact ⟨by simp [reset, hn, h.recorded n hn], hc, Nat.zero_le _, Nat.min_le_left ..⟩

theorem arenaGrowLimit_le (current step maxValue : Nat) : arenaGrowLimit current step maxValue ≤ maxValue := by
  unfold arenaGrowLimit
  split <;> omega

theorem le_arenaGrowLimit {current step maxValue : Nat} (h : current ≤ maxValue) :
    current ≤ arenaGrowLimit current step maxValue := by
  unfold arenaGrowLimit
  split <;> omega

theorem growLimit_covers {admits : Nat → Bool} {step needed : Nat} (fuel : Nat) {a : ByteArena} (h : a.Covers) :
    (a.growLimit admits step needed fuel).Covers := by
  induction fuel generalizing a with
  | zero => exact h
  | succ fuel ih =>
      unfold growLimit
      split
      · exact ih ⟨h.recorded, h.capacity_le, h.used_le.trans (le_arenaGrowLimit h.limit_le), arenaGrowLimit_le ..⟩
      · exact h

theorem growLimit_fixed {admits : Nat → Bool} {step needed : Nat} (fuel : Nat) {a : ByteArena} :
    (a.growLimit admits step needed fuel).used = a.used ∧ (a.growLimit admits step needed fuel).capacity = a.capacity ∧
      (a.growLimit admits step needed fuel).storageCapacity = a.storageCapacity := by
  induction fuel generalizing a with
  | zero => exact ⟨rfl, rfl, rfl⟩
  | succ fuel ih =>
      unfold growLimit
      split
      · exact ih
      · exact ⟨rfl, rfl, rfl⟩

theorem ensureCapacity_covers {admits : Nat → Bool} {step needed : Nat} (h : a.Covers) :
    (a.ensureCapacity admits step needed).Covers :=
  growLimit_covers _ h

/-- Room that is taken within the limit. -/
theorem Covers.take {size : Nat} (h : a.Covers) (hs : a.used + size ≤ a.limit) :
    ({ a with used := a.used + size } : ByteArena).Covers :=
  ⟨h.recorded, h.capacity_le, hs, h.limit_le⟩

/-- A new arena of the capacity of now, with no more in it than before. -/
theorem Covers.replaced {total : Nat} (h : a.Covers) (ht : total ≤ a.used) :
    ({ a with allocated := some a.capacity, storageCapacity := a.capacity, used := total } : ByteArena).Covers :=
  ⟨rfl, Nat.le_refl _, ht.trans h.used_le, h.limit_le⟩

end ByteArena

namespace NodeArena

variable {a : NodeArena} {claimed fits : Bool}

theorem Stands.covers (h : a.Stands true true) : a.Covers := by
  obtain ⟨n, hn⟩ := Option.isSome_iff_exists.1 (h.present rfl)
  exact ⟨n, hn, h.within rfl n hn⟩

theorem Covers.stands (h : a.Covers) : a.Stands claimed fits := by
  obtain ⟨n, hn, hc⟩ := h
  refine ⟨fun _ => by simp [hn], fun _ m hm => ?_⟩
  obtain rfl : n = m := by simpa [hn] using hm
  exact hc

/-- A new capacity that fits or not. -/
theorem Stands.setCapacity {capacity : Nat} {fits' : Bool} (h : a.Stands claimed fits)
    (hf : fits' = true → ∀ n ∈ a.allocated, capacity ≤ n) :
    ({ a with capacity := capacity } : NodeArena).Stands claimed fits' :=
  ⟨h.present, hf⟩

/-- What `aivm_vm_ensure_storage` leaves is there where it was found to be. -/
theorem ensure_stands {granted claimed' : Bool} (h : a.Stands claimed fits)
    (hc : claimed' = true → (a.ensure granted).allocated.isSome) : (a.ensure granted).Stands claimed' fits := by
  refine ⟨hc, fun hf => ?_⟩
  unfold ensure
  split
  · simp
  · exact h.within hf

theorem realloc_covers {granted : Bool} {capacity : Nat} {a a' : NodeArena} (h : a.Covers)
    (hr : a.realloc granted capacity = some a') : a'.Covers := by
  unfold realloc at hr
  split at hr
  · split at hr
    · cases hr
      exact ⟨capacity, rfl, Nat.le_refl _⟩
    · cases hr
  · cases hr
    exact h

end NodeArena

/-- Pieces that lie apart in an arena take no more room than is in use. -/
theorem ArenaLive.Apart.total_le {live : ArenaLive} {used : Nat} (h : live.Apart used) : live.total ≤ used :=
  Intervals.sum_count_le h.1 h.2

/-! ## How the VM stands -/

namespace VmStorage

variable {s : VmStorage} {standing : Standing}

structure Stands (s : VmStorage) (standing : Standing) : Prop where
  stringArena : s.stringArena.Stands standing.claimed standing.bytesFit
  bytesArena : s.bytesArena.Stands standing.claimed standing.bytesFit
  nodes : s.nodes.Stands standing.claimed standing.nodesFit
  nodeAttrs : s.nodeAttrs.Stands standing.claimed standing.nodesFit
  nodeChildren : s.nodeChildren.Stands standing.claimed standing.nodesFit

theorem Stands.covered (h : s.Stands standing) (hr : standing.Ready) : s.Covered := by
  obtain ⟨c, b, n⟩ := standing
  obtain ⟨rfl, rfl, rfl⟩ := hr
  exact ⟨h.stringArena.covers, h.bytesArena.covers, h.nodes.covers, h.nodeAttrs.covers, h.nodeChildren.covers⟩

theorem Covered.stands (h : s.Covered) : s.Stands standing :=
  ⟨h.stringArena.stands, h.bytesArena.stands, h.nodes.stands, h.nodeAttrs.stands, h.nodeChildren.stands⟩

theorem zeroed_stands : zeroed.Stands .initial := by
  constructor <;> constructor <;> simp [zeroed, Standing.initial]

theorem dispose_stands : s.dispose.Stands .initial := by
  constructor <;> constructor <;> simp [dispose, Standing.initial]

theorem setRuntimeProfile_stands (profile : RuntimeProfile) (h : s.Stands standing) :
    (s.setRuntimeProfile profile).Stands ⟨standing.claimed, s.BytesFit profile, s.NodesFit profile⟩ where
  stringArena := h.stringArena.setCapacity fun hf => (of_decide_eq_true hf).1
  bytesArena := h.bytesArena.setCapacity fun hf => (of_decide_eq_true hf).2
  nodes := h.nodes.setCapacity fun hf => (of_decide_eq_true hf).1
  nodeAttrs := h.nodeAttrs.setCapacity fun hf => (of_decide_eq_true hf).2.1
  nodeChildren := h.nodeChildren.setCapacity fun hf => (of_decide_eq_true hf).2.2

theorem claimed_iff : s.claimed = true ↔
    ((s.stack = true ∧ s.locals = true ∧ s.scratchPairs = true) ∧
      (s.stringArena.allocated.isSome ∧ s.stringArena.capacity ≤ s.stringArena.storageCapacity) ∧
      (s.bytesArena.allocated.isSome ∧ s.bytesArena.capacity ≤ s.bytesArena.storageCapacity) ∧
      s.nodes.allocated.isSome ∧ s.nodeAttrs.allocated.isSome ∧ s.nodeChildren.allocated.isSome) := by
  simp [claimed, and_assoc]

/-- A reset that finds its storage claims it for the capacities of now, save for the node arenas. -/
theorem resetState_stands (g : StorageGrants) (h : s.Stands standing) :
    (s.resetState g).Stands ⟨(s.ensureStorage g).claimed, true, standing.nodesFit⟩ := by
  have hs : (s.ensureStorage g).stringArena.Stands false true := ByteArena.ensure_recorded _ _ h.stringArena
  have hb : (s.ensureStorage g).bytesArena.Stands false true := ByteArena.ensure_recorded _ _ h.bytesArena
  have hn {claimed : Bool} : _ → (s.nodes.ensure g.nodes).Stands claimed _ := NodeArena.ensure_stands h.nodes
  have ha {claimed : Bool} : _ → (s.nodeAttrs.ensure g.nodeAttrs).Stands claimed _ :=
    NodeArena.ensure_stands h.nodeAttrs
  have hc {claimed : Bool} : _ → (s.nodeChildren.ensure g.nodeChildren).Stands claimed _ :=
    NodeArena.ensure_stands h.nodeChildren
  dsimp only [resetState]
  split
  · rename_i hclaimed
    obtain ⟨-, hstrings, hbytes, hnodes, hattrs, hchildren⟩ := claimed_iff.1 hclaimed
    rw [hclaimed]
    exact ⟨(ByteArena.reset_covers hs hstrings.1 hstrings.2).stands, (ByteArena.reset_covers hb hbytes.1 hbytes.2).stands,
      hn fun _ => hnodes, ha fun _ => hattrs, hc fun _ => hchildren⟩
  · rename_i hclaimed
    simp only [Bool.not_eq_true] at hclaimed
    rw [hclaimed]
    exact ⟨hs, hb, hn nofun, ha nofun, hc nofun⟩

/-! ## Work on the arenas -/

theorem growStringArena_covered {host : Nat → Bool} {size : Nat} (h : s.Covered) : (s.growStringArena host size).Covered :=
  ⟨ByteArena.ensureCapacity_covers h.stringArena, h.bytesArena, h.nodes, h.nodeAttrs, h.nodeChildren⟩

theorem compactStringArena_covered {live : ArenaLive} (h : s.Covered) (hc : s.StringsCompactable live) :
    (s.compactStringArena live).2.Covered := by
  dsimp only [compactStringArena]
  split
  · exact h
  · split
    · have hr := h.stringArena.replaced hc.2.total_le
      rw [← hc.1] at hr
      rw [← hc.1]
      exact ⟨hr, h.bytesArena, h.nodes, h.nodeAttrs, h.nodeChildren⟩
    · exact h

theorem compactBytesArena_covered {live : ArenaLive} (h : s.Covered) (hl : live.Apart s.bytesArena.used) :
    (s.compactBytesArena live).2.Covered := by
  dsimp only [compactBytesArena]
  split
  · exact h
  · split
    · exact ⟨h.stringArena, ⟨h.bytesArena.recorded, h.bytesArena.capacity_le, Nat.zero_le _, h.bytesArena.limit_le⟩,
        h.nodes, h.nodeAttrs, h.nodeChildren⟩
    · split
      · exact ⟨h.stringArena, h.bytesArena.replaced hl.total_le, h.nodes, h.nodeAttrs, h.nodeChildren⟩
      · exact h

theorem stringArenaReserve_covered {host : Nat → Bool} {live : ArenaLive} {size : Nat} (h : s.Covered)
    (hc : s.CompactsStrings host size → s.StringsCompactable live) :
    (s.stringArenaReserve host live size).2.Covered ∧ ((s.stringArenaReserve host live size).1 →
      let a := (s.stringArenaReserve host live size).2.stringArena
      a.used + size ≤ a.limit) := by
  have hg : (s.growStringArena host size).Covered := growStringArena_covered h
  obtain ⟨hused, hcap, hstorage⟩ :
      (s.growStringArena host size).stringArena.used = s.stringArena.used ∧
        (s.growStringArena host size).stringArena.capacity = s.stringArena.capacity ∧
        (s.growStringArena host size).stringArena.storageCapacity = s.stringArena.storageCapacity :=
    ByteArena.growLimit_fixed _
  dsimp only [stringArenaReserve]
  split
  · exact ⟨hg, fun _ => by assumption⟩
  · rename_i hfull
    have hcompacts : s.CompactsStrings host size := by
      have hu : (s.growStringArena host size).stringArena.used = s.stringArena.used := hused
      rw [hu] at hfull
      exact Nat.lt_of_not_le hfull
    have hs : (s.growStringArena host size).StringsCompactable live := by
      obtain ⟨heq, hapart⟩ := hc hcompacts
      exact ⟨hstorage.trans (heq.trans hcap.symm), hused ▸ hapart⟩
    have hcov := compactStringArena_covered hg hs
    split
    · rename_i he
      rw [he] at hcov
      exact ⟨hcov, by simp⟩
    · rename_i he
      rw [he] at hcov
      exact ⟨growStringArena_covered hcov, by simp⟩

theorem stringArenaAlloc_covered {host : Nat → Bool} {live : ArenaLive} {size : Nat} (h : s.Covered)
    (hc : s.CompactsStrings host size → s.StringsCompactable live) : (s.stringArenaAlloc host live size).Covered := by
  obtain ⟨hcov, hroom⟩ := stringArenaReserve_covered h hc
  dsimp only [stringArenaAlloc]
  split
  · rename_i he
    rw [he] at hcov hroom
    exact ⟨hcov.stringArena.take (hroom rfl), hcov.bytesArena, hcov.nodes, hcov.nodeAttrs, hcov.nodeChildren⟩
  · rename_i he
    rw [he] at hcov
    exact hcov

theorem bytesArenaAlloc_covered {host : Nat → Bool} {size : Nat} (h : s.Covered) :
    (s.bytesArenaAlloc host size).Covered := by
  have hg : (s.bytesArena.ensureCapacity (s.admits host) bytesArenaGrowthStep (s.bytesArena.used + size)).Covers :=
    ByteArena.ensureCapacity_covers h.bytesArena
  dsimp only [bytesArenaAlloc]
  split
  · rename_i hroom
    exact ⟨h.stringArena, hg.take hroom, h.nodes, h.nodeAttrs, h.nodeChildren⟩
  · exact ⟨h.stringArena, hg, h.nodes, h.nodeAttrs, h.nodeChildren⟩

theorem tryGrowNodeArenas_covered {host : Nat → Bool} {g : StorageGrants} {nodes attrs children : Nat}
    (h : s.Covered) : (s.tryGrowNodeArenas host g nodes attrs children).Covered := by
  dsimp only [tryGrowNodeArenas]
  split
  · exact h
  · split
    · exact h
    · rename_i nodes' hnodes
      have hn := NodeArena.realloc_covers h.nodes hnodes
      split
      · exact ⟨h.stringArena, h.bytesArena, hn, h.nodeAttrs, h.nodeChildren⟩
      · rename_i attrs' hattrs
        have ha := NodeArena.realloc_covers h.nodeAttrs hattrs
        split
        · exact ⟨h.stringArena, h.bytesArena, hn, ha, h.nodeChildren⟩
        · rename_i children' hchildren
          exact ⟨h.stringArena, h.bytesArena, hn, ha, NodeArena.realloc_covers h.nodeChildren hchildren⟩

/-! ## One event, and a run -/

/-- An instruction's work, which does nothing while no instruction runs, stands as it did. -/
theorem Stands.ifRunning {next : VmStorage} (h : s.Stands standing)
    (hnext : s.storageFailed = false → standing.Ready ∧ (s.Covered → next.Covered)) :
    (if s.storageFailed then s else next).Stands standing := by
  split
  · exact h
  · rename_i hf
    obtain ⟨hr, hcov⟩ := hnext (by simpa using hf)
    exact (hcov (h.covered hr)).stands

/-- An event that meets its condition leaves the storage standing as it should. -/
theorem Stands.step {e : StorageEvent} (h : s.Stands standing) (hm : standing.Meets s e) :
    (s.step e).Stands (standing.next s e) := by
  cases e with
  | init profile g => exact resetState_stands g (setRuntimeProfile_stands profile h)
  | setRuntimeProfile profile => exact setRuntimeProfile_stands profile h
  | resetState g => exact resetState_stands g h
  | dispose => exact dispose_stands
  | stringReserve host live size =>
      exact h.ifRunning fun hf => ⟨(hm hf).1, fun hc => (stringArenaReserve_covered hc (hm hf).2).1⟩
  | stringAlloc host live size =>
      exact h.ifRunning fun hf => ⟨(hm hf).1, fun hc => stringArenaAlloc_covered hc (hm hf).2⟩
  | bytesAlloc host size => exact h.ifRunning fun hf => ⟨hm hf, bytesArenaAlloc_covered⟩
  | growNodeArenas host g nodes attrs children => exact h.ifRunning fun hf => ⟨hm hf, tryGrowNodeArenas_covered⟩
  | compactNodes => exact h
  | compactStrings live => exact (compactStringArena_covered (h.covered hm.1) hm.2).stands
  | compactBytes live => exact (compactBytesArena_covered (h.covered hm.1) hm.2).stands

/-- The first part of a run that meets its condition leads to storage that stands, and the rest meets it from there. -/
theorem Stands.run {before rest : List StorageEvent} (h : s.Stands standing)
    (hm : standing.AllMeet s (before ++ rest)) :
    ∃ standing', (before.foldl VmStorage.step s).Stands standing' ∧
      standing'.AllMeet (before.foldl VmStorage.step s) rest := by
  induction before generalizing s standing with
  | nil => exact ⟨standing, h, hm⟩
  | cons e es ih => exact ih (h.step hm.1) hm.2

/-- Work on the arenas that meets its condition is done on storage ready for it, which it stays. -/
theorem ready_of_worksOn {e : StorageEvent} (hm : standing.Meets s e) (hw : e.WorksOn s) :
    standing.Ready ∧ standing.next s e = standing := by
  cases e with
  | stringReserve | stringAlloc => exact ⟨(hm hw).1, rfl⟩
  | bytesAlloc | growNodeArenas => exact ⟨hm hw, rfl⟩
  | compactNodes => exact ⟨hm, rfl⟩
  | compactStrings | compactBytes => exact ⟨hm.1, rfl⟩
  | init | setRuntimeProfile | resetState | dispose => exact hw.elim

end VmStorage

/-!
## The storage covers the capacities

Every run whose events meet their condition works on the arenas only while the storage covers the capacities. A profile
that asks for larger node arenas than there are breaks this, since these are never allocated again: so does a tooling
profile set on an initialized VM, and the set-up of a worker for a tooling VM.
-/

theorem storage_coveredThroughout (events : List StorageEvent) (h : MeetsStorageCondition events) :
    CoveredThroughout events := by
  rintro before e rest rfl hw
  obtain ⟨standing, hs, hm, -⟩ := VmStorage.zeroed_stands.run h
  obtain ⟨hr, hnext⟩ := VmStorage.ready_of_worksOn hm hw
  have hstep := hs.step hm
  rw [hnext] at hstep
  exact ⟨hs.covered hr, by simpa [VmStorage.after] using hstep.covered hr⟩

/-- A tooling VM that is later reset for production, works, and is freed and initialized again. -/
theorem storage_coveredThroughout_reused :
    CoveredThroughout [.init .tooling .all, .stringAlloc (fun _ => true) ⟨[], false, false⟩ 5,
      .setRuntimeProfile .production, .resetState .all, .bytesAlloc (fun _ => true) 40000, .dispose,
      .init .tooling .all, .growNodeArenas (fun _ => true) .all 65537 0 0] :=
  storage_coveredThroughout _ (by
    refine ⟨trivial, fun _ => ⟨?_, fun h => absurd h ?_⟩, trivial, trivial, fun _ => ?_, trivial, trivial,
      fun _ => ?_, trivial⟩
    · exact ⟨rfl, rfl, rfl⟩
    · simp only [VmStorage.CompactsStrings]
      decide
    · exact ⟨rfl, rfl, rfl⟩
    · exact ⟨rfl, rfl, rfl⟩)

/-- A VM initialized for production whose profile is then set to tooling: its 16384 nodes are taken for 65536. -/
theorem storage_not_coveredThroughout : ¬ ∀ events, CoveredThroughout events := by
  intro h
  obtain ⟨⟨-, -, ⟨n, hn, hc⟩, -, -⟩, -⟩ := h
    [.init .production .all, .setRuntimeProfile .tooling, .bytesAlloc (fun _ => true) 1]
    [.init .production .all, .setRuntimeProfile .tooling] (.bytesAlloc (fun _ => true) 1) [] rfl rfl
  obtain rfl : 16384 = n := Option.some.inj hn
  exact absurd hc (by decide)

/-- The worker of an `ASYNC_CALL` may run its first instruction unless its parent is a tooling VM. -/
theorem startCallSubroutineWorker_meets (parent : RuntimeProfile) :
    MeetsStorageCondition (startCallSubroutineWorker parent .all ++ [.compactNodes]) ↔ parent ≠ .tooling := by
  cases parent with
  | tooling =>
      refine iff_of_false ?_ (by simp)
      rintro ⟨-, -, ⟨-, -, hnodes⟩, -⟩
      exact absurd hnodes (by decide)
  | production | debug => exact iff_of_true ⟨trivial, trivial, ⟨by decide, by decide, by decide⟩, trivial⟩ (by simp)

end Aivm
