import Edm.Support.FreeList
import Edm.Support.Monitor
import Mathlib.Data.List.Perm.Subperm

/-!
# System — ResourcePool

The resolvers of `DNSResolver` are handed out by a `ResourcePool`: the indices of an array with a
free list threaded through it, under a mutex with one condition variable.  A lookup applies for an
index, asks the resolver at it, and releases it; other threads resize the pool or lock it.

Whatever the threads do, no two lookups have the same resolver, and no index is lost
(`exclusive_run`).  While nobody resizes or locks the pool, no lookup sleeps when a resolver is free
and nobody has been told of it (`attended_run`).
-/

namespace Edm.System
open Support

/-- `ResourcePool::npos`. -/
def npos : Nat := 2 ^ 64 - 1

/-- `POOL_FLAG_HAS_APPLIED`. -/
def hasApplied : Nat := 2 ^ 64 - 1

/-- `POOL_FLAG_ENDING`. -/
def ending : Nat := 2 ^ 64 - 2

structure ResourcePool where
  m_bHasLockedAll : Bool
  m_lpnResourcePool : Option (List Nat)
  m_nFreeCount : Nat
  m_nTotalCount : Nat
  m_nNextAvailableIndex : Nat

namespace ResourcePool
variable (p : ResourcePool)

def new : ResourcePool := ⟨false, none, 0, 0, ending⟩

def getIndexWithoutLock : Nat × ResourcePool :=
  match p.m_lpnResourcePool with
  | none => (npos, p)
  | some pool =>
      if p.m_bHasLockedAll = true ∨ p.m_nFreeCount = 0 ∨ p.m_nNextAvailableIndex = ending then
        (npos, p)
      else
        (p.m_nNextAvailableIndex, { p with
          m_nNextAvailableIndex := pool.getD p.m_nNextAvailableIndex 0
          m_lpnResourcePool := some (pool.set p.m_nNextAvailableIndex hasApplied)
          m_nFreeCount := p.m_nFreeCount - 1 })

def clearWithoutLock (bLockAll : Bool) : ResourcePool := ⟨bLockAll, none, 0, 0, ending⟩

/-- `resizeWithoutLock`; `made` says that `new` gets the memory, else it throws behind
`clearWithoutLock`. -/
def resizeWithoutLock (bLockAll : Bool) (nSize : Nat) (made : Bool) : ResourcePool :=
  let p := clearWithoutLock bLockAll
  if 0 < nSize ∧ made = true ∧ nSize * 8 < 2 ^ 64 then
    { p with
      m_lpnResourcePool := some (((List.range nSize).map (· + 1)).set (nSize - 1) ending)
      m_nFreeCount := nSize
      m_nTotalCount := nSize
      m_nNextAvailableIndex := 0 }
  else p

/-- `release`, and whether somebody is told. -/
def release (nIndex : Nat) : ResourcePool × Bool :=
  match p.m_lpnResourcePool with
  | none => (p, false)
  | some pool =>
      if nIndex < p.m_nTotalCount ∧ pool.getD nIndex 0 = hasApplied then
        ({ p with
          m_lpnResourcePool := some (pool.set nIndex p.m_nNextAvailableIndex)
          m_nNextAvailableIndex := nIndex
          m_nFreeCount := p.m_nFreeCount + 1 }, true)
      else (p, false)

end ResourcePool

/-! ### The threads -/

/-- What a thread calls: `apply` and `release` are those of its `SafePoolAgent`. -/
inductive PoolCall where
  | apply (timed : Bool)
  | release
  | resize (nSize : Nat) (made : Bool)
  | lockAll
  | lockAllAndResize (nSize : Nat) (made : Bool)
  | releaseAll

/-- A thread that looks a name up applies and releases. -/
def PoolCall.looks : PoolCall → Bool
  | .apply _ | .release => true
  | _ => false

theorem PoolCall.looks_cases {c : PoolCall} (hc : c.looks = true) :
    (∃ timed, c = .apply timed) ∨ c = .release := by
  cases c with
  | apply timed => exact .inl ⟨timed, rfl⟩
  | release => exact .inr rfl
  | resize | lockAll | lockAllAndResize | releaseAll => cases hc

/-- The pool, and the index that the agent of each thread has. -/
structure Pooled (T : Type*) where
  pool : ResourcePool
  m_nIndex : T → Nat

namespace Pooled
variable {T : Type*} [DecidableEq T] (s : Pooled T)

/-- A section that leaves. -/
def leave (pool : ResourcePool) : Section (Pooled T) PoolCall Unit :=
  ⟨{ s with pool := pool }, .nobody, none⟩

def wait (c : PoolCall) : Section (Pooled T) PoolCall Unit := ⟨s, .nobody, some c⟩

/-- An agent releases its index. -/
def release (t : T) : Section (Pooled T) PoolCall Unit :=
  if s.m_nIndex t = npos then s.leave s.pool
  else
    ⟨⟨(s.pool.release (s.m_nIndex t)).1, Function.update s.m_nIndex t npos⟩,
      if (s.pool.release (s.m_nIndex t)).2 then .one () else .nobody, none⟩

/-- A turn of the loop of `apply`. -/
def apply (t : T) (timed : Bool) : Section (Pooled T) PoolCall Unit :=
  if s.pool.m_bHasLockedAll = true ∨ s.pool.m_lpnResourcePool = none then s.leave s.pool
  else if s.pool.getIndexWithoutLock.1 ≠ npos then
    ⟨⟨s.pool.getIndexWithoutLock.2, Function.update s.m_nIndex t s.pool.getIndexWithoutLock.1⟩,
      .nobody, none⟩
  else s.wait (.apply timed)

/-- The loop of a call, from its condition on. -/
def loop (t : T) : PoolCall → Section (Pooled T) PoolCall Unit
  | .apply timed => s.apply t timed
  | .release => s.release t
  | .resize nSize made =>
      if s.pool.m_nFreeCount < s.pool.m_nTotalCount then s.wait (.resize nSize made)
      else s.leave (.resizeWithoutLock s.pool.m_bHasLockedAll nSize made)
  | .lockAll =>
      if s.pool.m_nFreeCount < s.pool.m_nTotalCount then s.wait .lockAll else s.leave s.pool
  | .lockAllAndResize nSize made =>
      if s.pool.m_nFreeCount < s.pool.m_nTotalCount then s.wait (.lockAllAndResize nSize made)
      else s.leave (.resizeWithoutLock true nSize made)
  | .releaseAll => s.leave { s.pool with m_bHasLockedAll := false }

def enter (t : T) : PoolCall → Section (Pooled T) PoolCall Unit
  | .lockAll => loop { s with pool := { s.pool with m_bHasLockedAll := true } } t .lockAll
  | c => s.loop t c

def new : Pooled T := ⟨.new, fun _ => npos⟩

end Pooled

/-- The pool and its threads: a lookup applies with an agent that has no index. -/
def poolMonitor (T : Type*) [DecidableEq T] : Monitor T (Pooled T) PoolCall PoolCall Unit where
  may t
    | .apply _, s => s.m_nIndex t == npos
    | _, _ => true
  enter t c s := s.enter t c
  resume t c timedOut s := if timedOut then s.leave s.pool else s.loop t c
  cond _ := ()
  timed
    | .apply timed => timed
    | _ => false

/-! ### What holds in every run -/

namespace Pooled
variable {T : Type*} (s : Pooled T)

/-- No two agents have one index, every index is one of the pool, and an index that no agent has is
free. -/
structure Exclusive (s : Pooled T) (free : List Nat) : Prop where
  apart : ∀ t u, s.m_nIndex t = s.m_nIndex u → s.m_nIndex t ≠ npos → t = u
  inside : ∀ t, s.m_nIndex t ≠ npos → s.m_nIndex t < s.pool.m_nTotalCount
  free_iff : ∀ i < s.pool.m_nTotalCount, i ∈ free ↔ ∀ t, s.m_nIndex t ≠ i
  count : s.pool.m_nFreeCount = free.length

/-- The free indices are those of the list threaded through the array. -/
structure Sound (s : Pooled T) (free : List Nat) : Prop extends Exclusive s free where
  list : FreeList (s.pool.m_lpnResourcePool.getD []) ending hasApplied
    s.pool.m_nNextAvailableIndex free
  length : (s.pool.m_lpnResourcePool.getD []).length = s.pool.m_nTotalCount
  total : s.pool.m_nTotalCount * 8 < 2 ^ 64
  none_iff : s.pool.m_lpnResourcePool = none ↔ s.pool.m_nTotalCount = 0

variable {s} {free : List Nat}

theorem Sound.new : Sound (.new : Pooled T) [] where
  apart _ _ _ h := absurd rfl h
  inside _ h := absurd rfl h
  free_iff _ h := by cases h
  count := rfl
  list := ⟨rfl, List.nodup_nil, fun _ h => by cases h⟩
  length := rfl
  total := Nat.two_pow_pos 64
  none_iff := iff_of_true rfl rfl

/-- No agent has an index when all are free. -/
theorem Sound.idle (h : Sound s free) (hall : ¬ s.pool.m_nFreeCount < s.pool.m_nTotalCount) (t : T) :
    s.m_nIndex t = npos := by
  by_contra hne
  have hlt := h.inside t hne
  have hnot : s.m_nIndex t ∉ free := fun hmem => (h.free_iff _ hlt).mp hmem t rfl
  have hsub : s.m_nIndex t :: free ⊆ List.range s.pool.m_nTotalCount := by
    refine List.cons_subset.mpr ⟨List.mem_range.mpr hlt, fun i hi => ?_⟩
    rw [List.mem_range, ← h.length]
    exact h.list.threaded.lt hi
  have hle := (List.subperm_of_subset (List.nodup_cons.mpr ⟨hnot, h.list.nodup⟩) hsub).length_le
  rw [List.length_cons, List.length_range, ← h.count] at hle
  omega

/-- The array of a new pool. -/
theorem Sound.resize (h : Sound s free)
    (hall : ¬ s.pool.m_nFreeCount < s.pool.m_nTotalCount) (bLockAll : Bool) (nSize : Nat)
    (made : Bool) :
    ∃ free, Sound { s with pool := .resizeWithoutLock bLockAll nSize made } free := by
  have hidle := h.idle hall
  unfold ResourcePool.resizeWithoutLock
  dsimp only
  split
  next hmade =>
    obtain ⟨n, rfl⟩ := Nat.exists_eq_succ_of_ne_zero (Nat.ne_of_gt hmade.1)
    refine ⟨List.range (n + 1), ⟨⟨fun t _ _ ht => absurd (hidle t) ht,
      fun t ht => absurd (hidle t) ht, fun i hi => ?_, by simp⟩, ?_, by simp, hmade.2.2, by simp⟩⟩
    · refine iff_of_true (List.mem_range.mpr hi) fun t => ?_
      rw [hidle t, npos]
      have := hmade.2.2
      dsimp only at hi
      omega
    · refine FreeList.init (by simp) (fun i hi => ?_) ?_ ?_ (by decide)
      · rw [Option.getD_some, Nat.succ_sub_one, getD_set_of_ne (Nat.ne_of_gt hi)]
        simp [List.getD_eq_getElem?_getD, Nat.lt_succ_of_lt hi]
      · simp [List.getD_eq_getElem?_getD]
      · have := hmade.2.2
        simp only [hasApplied]
        omega
  next =>
    exact ⟨[], ⟨⟨fun t _ _ ht => absurd (hidle t) ht, fun t ht => absurd (hidle t) ht,
      fun _ hi => (by cases hi), rfl⟩, ⟨rfl, List.nodup_nil, fun _ hi => (by cases hi)⟩, rfl,
      Nat.two_pow_pos 64, iff_of_true rfl rfl⟩⟩

/-- The flag says nothing of the indices. -/
theorem Sound.lock (h : Sound s free) (bLockAll : Bool) :
    Sound { s with pool := { s.pool with m_bHasLockedAll := bLockAll } } free :=
  ⟨⟨h.apart, h.inside, h.free_iff, h.count⟩, h.list, h.length, h.total, h.none_iff⟩

variable [DecidableEq T] {t : T}

/-- An agent gets a free index. -/
theorem Exclusive.take {i : Nat} (h : Exclusive s (i :: free)) (hi : i < s.pool.m_nTotalCount)
    (hnot : i ∉ free) (ht : s.m_nIndex t = npos) {pool : ResourcePool}
    (htotal : pool.m_nTotalCount = s.pool.m_nTotalCount) (hcount : pool.m_nFreeCount = free.length)
    (hsmall : s.pool.m_nTotalCount ≤ npos) :
    Exclusive ⟨pool, Function.update s.m_nIndex t i⟩ free where
  apart u v huv hu := by
    have hfree := (h.free_iff i hi).mp List.mem_cons_self
    simp only [Function.update_apply] at huv hu
    split_ifs at huv hu with hut hvt hvt
    · rw [hut, hvt]
    · exact absurd huv.symm (hfree v)
    · exact absurd huv (hfree u)
    · exact h.apart u v huv hu
  inside u hu := by
    simp only [Function.update_apply] at hu ⊢
    rw [htotal]
    split_ifs at hu ⊢ with hut
    · exact hi
    · exact h.inside u hu
  free_iff j hj := by
    rw [htotal] at hj
    have hiff := h.free_iff j hj
    rw [List.mem_cons] at hiff
    by_cases hji : j = i
    · subst hji
      exact iff_of_false hnot fun hnone => hnone t (Function.update_self _ _ _)
    · rw [or_iff_right hji] at hiff
      refine hiff.trans (forall_congr' fun u => ?_)
      simp only [Function.update_apply]
      split_ifs with hut
      · subst hut
        exact iff_of_true (by omega) (Ne.symm hji)
      · exact Iff.rfl
  count := hcount

/-- An agent gives its index back. -/
theorem Exclusive.give (h : Exclusive s free) (ht : s.m_nIndex t ≠ npos) {pool : ResourcePool}
    (htotal : pool.m_nTotalCount = s.pool.m_nTotalCount)
    (hcount : pool.m_nFreeCount = free.length + 1) (hsmall : s.pool.m_nTotalCount ≤ npos) :
    Exclusive ⟨pool, Function.update s.m_nIndex t npos⟩ (s.m_nIndex t :: free) where
  apart u v huv hu := by
    simp only [Function.update_apply] at huv hu
    split_ifs at huv hu with hut hvt hvt
    · exact absurd rfl hu
    · exact absurd rfl hu
    · exact absurd huv hu
    · exact h.apart u v huv hu
  inside u hu := by
    simp only [Function.update_apply] at hu ⊢
    rw [htotal]
    split_ifs at hu ⊢ with hut
    · exact absurd rfl hu
    · exact h.inside u hu
  free_iff j hj := by
    rw [htotal] at hj
    rw [List.mem_cons, h.free_iff j hj]
    constructor
    · rintro (rfl | hnone) u
      · simp only [Function.update_apply]
        split_ifs with hut
        · omega
        · exact fun hut' => hut (h.apart u t hut' (by rwa [hut']))
      · simp only [Function.update_apply]
        split_ifs with hut
        · omega
        · exact hnone u
    · intro hnone
      by_cases hjt : j = s.m_nIndex t
      · exact .inl hjt
      · refine .inr fun u => ?_
        have hu := hnone u
        simp only [Function.update_apply] at hu
        split_ifs at hu with hut
        · subst hut
          exact Ne.symm hjt
        · exact hu
  count := by rw [List.length_cons, hcount]

/-- The first free index is handed out. -/
theorem Sound.take (h : Sound s free) (ht : s.m_nIndex t = npos)
    (hnpos : s.pool.getIndexWithoutLock.1 ≠ npos) : ∃ free', free
      = s.pool.getIndexWithoutLock.1 :: free' ∧ Sound ⟨s.pool.getIndexWithoutLock.2,
        Function.update s.m_nIndex t s.pool.getIndexWithoutLock.1⟩ free' := by
  unfold ResourcePool.getIndexWithoutLock at hnpos ⊢
  cases hpool : s.pool.m_lpnResourcePool with
  | none =>
      rw [hpool] at hnpos
      exact absurd rfl hnpos
  | some pool =>
      rw [hpool] at hnpos
      dsimp only at hnpos ⊢
      split at hnpos
      next => exact absurd rfl hnpos
      next hfree =>
        rw [if_neg hfree]
        rw [not_or, not_or] at hfree
        have hlist := h.list
        have hlen := h.length
        have htotal := h.total
        rw [hpool, Option.getD_some] at hlist hlen
        obtain ⟨i, free, rfl⟩ : ∃ i free', free = i :: free' :=
          List.exists_cons_of_ne_nil fun hnil => hfree.2.1 (by rw [h.count, hnil, List.length_nil])
        obtain ⟨hi, hlt, hnot, hlist⟩ := hlist.pop
        have hcount := h.count
        rw [List.length_cons] at hcount
        refine ⟨free, by rw [hi], ⟨?_, ?_, ?_, htotal, ?_⟩⟩
        · rw [hi]
          refine h.toExclusive.take (by omega) hnot ht rfl ?_ (by simp only [npos]; omega)
          dsimp only
          omega
        · rw [Option.getD_some, hi]
          exact hlist
        · rw [Option.getD_some, List.length_set]
          exact hlen
        · rw [← h.none_iff, hpool]
          simp

/-- The index of an agent is put on the list again, and somebody is told. -/
theorem Sound.release (h : Sound s free) (ht : s.m_nIndex t ≠ npos) :
    (s.pool.release (s.m_nIndex t)).2 = true ∧
      (s.pool.release (s.m_nIndex t)).1.m_nFreeCount = s.pool.m_nFreeCount + 1 ∧
      Sound ⟨(s.pool.release (s.m_nIndex t)).1, Function.update s.m_nIndex t npos⟩
        (s.m_nIndex t :: free) := by
  have hlt := h.inside t ht
  have htotal := h.total
  have hlist := h.list
  have hlen := h.length
  unfold ResourcePool.release
  cases hpool : s.pool.m_lpnResourcePool with
  | none =>
      rw [h.none_iff.mp hpool] at hlt
      cases hlt
  | some pool =>
      rw [hpool, Option.getD_some] at hlist hlen
      have htaken : pool.getD (s.m_nIndex t) 0 = hasApplied :=
        (hlist.taken_iff _ (by omega)).mpr fun hmem => (h.free_iff _ hlt).mp hmem t rfl
      dsimp only
      rw [if_pos ⟨hlt, htaken⟩]
      refine ⟨rfl, rfl, ?_, ?_, ?_, htotal, ?_⟩
      · refine h.toExclusive.give ht rfl ?_ (by simp only [npos]; omega)
        dsimp only
        rw [h.count]
      · exact (hlist.push (by omega) htaken (by simp only [hasApplied]; omega) (by decide)).2
      · rw [Option.getD_some, List.length_set]
        exact hlen
      · rw [← h.none_iff, hpool]
        simp

/-- An agent that has an index asks for no other. -/
def Applying (t : T) (c : PoolCall) (s : Pooled T) : Prop :=
  ∀ timed, c = .apply timed → s.m_nIndex t = npos

omit [DecidableEq T] in
/-- A turn of `apply` waits only when nothing is free. -/
theorem Sound.getIndex_eq_npos (h : Sound s free) (hlocked : s.pool.m_bHasLockedAll = false)
    (hnpos : s.pool.getIndexWithoutLock.1 = npos) : s.pool.m_nFreeCount = 0 := by
  have hlist := h.list
  have hlen := h.length
  unfold ResourcePool.getIndexWithoutLock at hnpos
  rw [h.count, List.length_eq_zero_iff]
  cases hpool : s.pool.m_lpnResourcePool with
  | none =>
      rw [hpool, Option.getD_none] at hlist
      exact List.eq_nil_iff_forall_not_mem.mpr fun i hi => absurd (hlist.threaded.lt hi) (by simp)
  | some pool =>
      rw [hpool, Option.getD_some] at hlist hlen
      have htotal := h.total
      rw [hpool] at hnpos
      dsimp only at hnpos
      split at hnpos
      next hor =>
        rcases hor with hor | hor | hor
        · rw [hlocked] at hor
          cases hor
        · rwa [h.count, List.length_eq_zero_iff] at hor
        · exact (hlist.eq_nil_iff (by simp only [ending]; omega)).mpr hor
      next hor =>
        rw [not_or, not_or] at hor
        refine (hlist.eq_nil_iff (by simp only [ending]; omega)).mpr ?_
        by_contra hne
        obtain ⟨i, free', rfl⟩ := List.exists_cons_of_ne_nil
          (mt (hlist.eq_nil_iff (by simp only [ending]; omega)).mp hne)
        obtain ⟨hi, hlt, -⟩ := hlist.threaded
        simp only [npos] at hnpos
        omega

/-- The section of a turn, or of the beginning, of a call. -/
theorem Sound.loop (h : Sound s free) {c : PoolCall} (hc : Applying t c s) :
    ∃ free, Sound (s.loop t c).shared free := by
  cases c with
  | apply timed =>
      simp only [Pooled.loop, Pooled.apply]
      split_ifs with hnone hget
      · exact ⟨free, h⟩
      · obtain ⟨free', -, h'⟩ := h.take (hc timed rfl) hget
        exact ⟨free', h'⟩
      · exact ⟨free, h⟩
  | release =>
      simp only [Pooled.loop, Pooled.release]
      split_ifs with hnone
      · exact ⟨free, h⟩
      · exact ⟨_, (h.release hnone).2.2⟩
      · exact ⟨_, (h.release hnone).2.2⟩
  | resize nSize made =>
      simp only [Pooled.loop]
      split_ifs with hall
      · exact ⟨free, h⟩
      · exact h.resize hall _ nSize made
  | lockAll =>
      simp only [Pooled.loop]
      split_ifs
      · exact ⟨free, h⟩
      · exact ⟨free, h⟩
  | lockAllAndResize nSize made =>
      simp only [Pooled.loop]
      split_ifs with hall
      · exact ⟨free, h⟩
      · exact h.resize hall _ nSize made
  | releaseAll => exact ⟨free, h.lock false⟩

theorem Sound.enter (h : Sound s free) {c : PoolCall} (hc : Applying t c s) :
    ∃ free, Sound (s.enter t c).shared free := by
  unfold Pooled.enter
  split
  next => exact (h.lock true).loop (fun _ hc => by cases hc)
  next => exact h.loop hc

/-- A section changes the index of its own agent only. -/
theorem loop_m_nIndex (c : PoolCall) {u : T} (hu : u ≠ t) :
    (s.loop t c).shared.m_nIndex u = s.m_nIndex u := by
  cases c <;> simp only [Pooled.loop, Pooled.apply, Pooled.release, leave, wait] <;>
    split_ifs <;> simp [Function.update_of_ne hu]

theorem enter_m_nIndex (c : PoolCall) {u : T} (hu : u ≠ t) :
    (s.enter t c).shared.m_nIndex u = s.m_nIndex u := by
  unfold Pooled.enter
  split
  next => rw [loop_m_nIndex _ hu]
  next => rw [loop_m_nIndex _ hu]

/-- A thread that waits in a call has what the call had. -/
theorem loop_waits {c c' : PoolCall} (hc : (s.loop t c).waits = some c') :
    c' = c ∧ (s.loop t c).shared = s := by
  cases c with
  | releaseAll => cases hc
  | apply timed | release | resize nSize made | lockAll | lockAllAndResize nSize made =>
      simp only [Pooled.loop, Pooled.apply, Pooled.release, leave, wait] at hc ⊢
      split_ifs at hc ⊢ <;> simp_all

end Pooled

/-! ### The runs -/

section
variable {T : Type*} [Fintype T] [DecidableEq T]

/-- The pool and its threads. -/
abbrev PoolHall (T : Type*) := Hall T (Pooled T) PoolCall

namespace PoolHall

/-- The pool is sound, and who waits for an index has none. -/
structure Inv (h : PoolHall T) : Prop where
  sound : ∃ free, h.shared.Sound free
  applying : ∀ t c, (h.threads t).under = some c → Pooled.Applying t c h.shared

def new : PoolHall T := ⟨.new, fun _ => .out⟩

omit [Fintype T] [DecidableEq T] in
theorem Inv.new : Inv (.new : PoolHall T) := ⟨⟨[], .new⟩, fun _ _ h => by cases h⟩

/-- A step changes the index of its own agent only. -/
theorem step_m_nIndex {h h' : PoolHall T} {a : T × Turn T PoolCall}
    (hs : (poolMonitor T).step h a = some h') {u : T} (hu : u ≠ a.1) :
    h'.shared.m_nIndex u = h.shared.m_nIndex u := by
  rcases Monitor.step_cases hs with ⟨c, ws, -, -, -, hs⟩ | ⟨ws, c, timedOut, -, -, hs⟩ |
    ⟨c, timedOut, -, -, -, rfl⟩
  · rw [(Monitor.taken hs).2.shared]
    exact Pooled.enter_m_nIndex c hu
  · rw [(Monitor.taken hs).2.shared]
    dsimp only [poolMonitor]
    split
    · rfl
    · exact Pooled.loop_m_nIndex c hu
  · rfl

theorem Inv.step {h h' : PoolHall T} (hi : Inv h) {a : T × Turn T PoolCall}
    (hs : (poolMonitor T).step h a = some h') : Inv h' := by
  obtain ⟨free, hsound⟩ := hi.sound
  have hmay : ∀ c, (poolMonitor T).may a.1 c h.shared = true →
      Pooled.Applying a.1 c h.shared := by
    rintro c hmay timed rfl
    exact beq_iff_eq.mp hmay
  refine ⟨?_, Monitor.step_relies (J := Pooled.Applying) ?_ ?_ ?_ hi.applying hs⟩
  · rcases Monitor.step_cases hs with ⟨c, ws, -, -, hc, hs⟩ | ⟨ws, c, timedOut, -, hseat, hs⟩ |
      ⟨c, timedOut, -, -, -, rfl⟩
    · rw [(Monitor.taken hs).2.shared]
      exact hsound.enter (hmay c hc)
    · rw [(Monitor.taken hs).2.shared]
      dsimp only [poolMonitor]
      split
      · exact ⟨free, hsound⟩
      · exact hsound.loop (hi.applying a.1 c (by rw [hseat]; rfl))
    · exact ⟨free, hsound⟩
  · intro u c hu hc timed htimed
    rw [step_m_nIndex hs hu]
    exact hc timed htimed
  · rintro c c' hc hwaits timed rfl
    dsimp only [poolMonitor] at hwaits ⊢
    unfold Pooled.enter at hwaits ⊢
    split at hwaits
    next => cases (Pooled.loop_waits hwaits).1
    next =>
      rw [(Pooled.loop_waits hwaits).2]
      exact hmay c hc timed (Pooled.loop_waits hwaits).1.symm
  · rintro c timedOut c' hc hwaits timed rfl
    dsimp only [poolMonitor] at hwaits ⊢
    split at hwaits
    next => cases hwaits
    next htimedOut =>
      rw [if_neg htimedOut, (Pooled.loop_waits hwaits).2]
      exact hc timed (Pooled.loop_waits hwaits).1.symm

/-- **Every resolver is one lookup's, or free**: no two agents have one index, and a lookup that
looks at a pool with a free index gets one unless the pool is locked. -/
theorem exclusive_run {as : List (T × Turn T PoolCall)} {h : PoolHall T}
    (hrun : Run (poolMonitor T).Steps (PoolHall.new : PoolHall T) as h) :
    (∃ free : List Nat, free.Nodup ∧ h.shared.Exclusive free) ∧
      ∀ t timed, h.shared.pool.m_bHasLockedAll = false → 0 < h.shared.pool.m_nFreeCount →
        (h.shared.apply t timed).shared.m_nIndex t ≠ npos := by
  obtain ⟨free, hsound⟩ := (hrun.invariant (I := Inv) (fun _ _ _ hi hs => hi.step hs) .new).sound
  refine ⟨⟨free, hsound.list.nodup, hsound.toExclusive⟩, fun t timed hlocked hfree => ?_⟩
  have hget := mt (hsound.getIndex_eq_npos hlocked) (Nat.ne_of_gt hfree)
  have hnone : h.shared.pool.m_lpnResourcePool ≠ none := by
    intro hnone
    apply hget
    rw [ResourcePool.getIndexWithoutLock, hnone]
  rw [Pooled.apply, if_neg (by simp [hlocked, hnone]), if_pos hget]
  dsimp only
  rw [Function.update_self]
  exact hget

/-- A pool of one resolver is made, a lookup takes it, and a second one waits for it. -/
def handOver : List (Bool × Turn Bool PoolCall) :=
  [(true, .call (.resize 1 true) []), (true, .call (.apply true) []),
    (false, .call (.apply false) []), (true, .call .release [false]), (false, .resume [])]

theorem exclusive_run_handOver : ∃ h, Run (poolMonitor Bool).Steps PoolHall.new handOver h ∧
    (∃ free : List Nat, free.Nodup ∧ h.shared.Exclusive free) ∧
      ∀ t timed, h.shared.pool.m_bHasLockedAll = false → 0 < h.shared.pool.m_nFreeCount →
        (h.shared.apply t timed).shared.m_nIndex t ≠ npos := by
  have hrun : Run (poolMonitor Bool).Steps PoolHall.new handOver _ :=
    .of_foldlM (Option.some_get (by decide : Option.isSome _ = true)).symm
  exact ⟨_, hrun, exclusive_run hrun⟩

/-! ### Nobody sleeps while a resolver is free -/

/-- The threads look names up, and nothing else. -/
def Looks (_ : PoolHall T) (a : T × Turn T PoolCall) : Prop :=
  match a.2 with
  | .call c _ => c.looks = true
  | _ => True

instance (h : PoolHall T) (a : T × Turn T PoolCall) : Decidable (Looks h a) := by
  unfold Looks
  split <;> infer_instance

/-- Nobody has locked the pool, who waits waits for an index, and nobody sleeps for one that is
there. -/
structure Looking (h : PoolHall T) : Prop extends Inv h where
  unlocked : h.shared.pool.m_bHasLockedAll = false
  waits : ∀ t c, (h.threads t).under = some c → ∃ timed, c = .apply timed
  attended : Monitor.Attended (poolMonitor T) () (fun s => s.pool.m_nFreeCount) h

/-- A section of a thread that looks names up. -/
structure LookSection (s : Pooled T) (paid : Nat) (sec : Section (Pooled T) PoolCall Unit) :
    Prop where
  unlocked : sec.shared.pool.m_bHasLockedAll = s.pool.m_bHasLockedAll
  waits : ∀ c, sec.waits = some c → (∃ timed, c = .apply timed) ∧ sec.shared.pool.m_nFreeCount = 0
  fair : Monitor.Fair () (fun s => s.pool.m_nFreeCount) s paid sec

omit [Fintype T] in
theorem LookSection.apply {s : Pooled T} {free : List Nat} (h : s.Sound free)
    (hlocked : s.pool.m_bHasLockedAll = false) {t : T} (ht : s.m_nIndex t = npos) (timed : Bool)
    {paid : Nat} (hpaid : paid ≤ 1) : LookSection s paid (s.apply t timed) := by
  unfold Pooled.apply
  split_ifs with hnone hget
  · -- There is no array: nothing is free.
    rw [hlocked, or_iff_right (by simp), h.none_iff] at hnone
    have hzero : s.pool.m_nFreeCount = 0 := by
      rw [h.count, List.length_eq_zero_iff, List.eq_nil_iff_forall_not_mem]
      intro i hi
      have hlt := h.list.threaded.lt hi
      rw [h.length, hnone] at hlt
      cases hlt
    exact ⟨rfl, fun c hc => (by cases hc), .inr (.inl hzero)⟩
  · obtain ⟨free', rfl, htaken⟩ := h.take ht hget
    refine ⟨?_, fun c hc => (by cases hc), .inr (.inr ?_)⟩
    · unfold ResourcePool.getIndexWithoutLock
      dsimp only
      split
      · rfl
      · split_ifs <;> rfl
    · have hbefore := h.count
      have hbehind := htaken.count
      rw [List.length_cons] at hbefore
      dsimp only [Monitor.gives] at hbehind ⊢
      omega
  · have hzero := h.getIndex_eq_npos hlocked (not_not.mp hget)
    exact ⟨rfl, fun c hc => ⟨⟨timed, (Option.some.inj hc).symm⟩, hzero⟩, .inr (.inl hzero)⟩

omit [Fintype T] in
theorem LookSection.release {s : Pooled T} {free : List Nat} (h : s.Sound free) {t : T} :
    LookSection s 0 (s.release t) := by
  unfold Pooled.release
  split_ifs with hnone hall
  · exact ⟨rfl, fun c hc => (by cases hc), .inr (.inr (Nat.le_refl _))⟩
  · refine ⟨?_, fun c hc => (by cases hc), .inr (.inr ?_)⟩
    · unfold ResourcePool.release
      dsimp only
      split
      · rfl
      · split_ifs <;> rfl
    · exact Nat.le_of_eq (h.release hnone).2.1
  · exact absurd (h.release hnone).1 hall

theorem Looking.step {h h' : PoolHall T} (hl : Looking h) {a : T × Turn T PoolCall}
    (hg : Looks h a) (hs : (poolMonitor T).step h a = some h') : Looking h' := by
  have hinv := hl.toInv.step hs
  obtain ⟨free, hsound⟩ := hl.sound
  -- A section of `a`, whatever it is.
  have htake : ∀ {sec ws}, (poolMonitor T).sleeps () (h.threads a.1) = false →
      LookSection h.shared ((poolMonitor T).told () (h.threads a.1)) sec →
      (poolMonitor T).take h a.1 sec ws = some h' → Looking h' := by
    intro sec ws hsleeps hsec hs
    refine ⟨hinv, ?_, ?_, hl.attended.take hsleeps (fun _ _ => hsec.fair)
      (fun c hc _ => (hsec.waits c hc).2) hs⟩
    · rw [(Monitor.taken hs).2.shared, hsec.unlocked, hl.unlocked]
    · intro u c hu
      by_cases hua : u = a.1
      · subst hua
        rw [(Monitor.taken hs).2.self, Seat.under_behind] at hu
        exact (hsec.waits c hu).1
      · rw [(Monitor.taken hs).2.others u hua] at hu
        split at hu
        · exact hl.waits u c (by rwa [Seat.under_wake] at hu)
        · exact hl.waits u c hu
  rcases Monitor.step_cases hs with ⟨c, ws, hturn, hseat, hmay, hs⟩ |
    ⟨ws, c, timedOut, -, hseat, hs⟩ | ⟨c, timedOut, -, hseat, -, rfl⟩
  · refine htake (by rw [hseat]; rfl) ?_ hs
    rw [hseat]
    unfold Looks at hg
    rw [hturn] at hg
    rcases PoolCall.looks_cases hg with ⟨timed, rfl⟩ | rfl
    · exact .apply hsound hl.unlocked (beq_iff_eq.mp hmay) timed (Nat.zero_le _)
    · exact .release hsound
  · obtain ⟨timed, rfl⟩ := hl.waits a.1 c (by rw [hseat]; rfl)
    have ht := hl.applying a.1 _ (by rw [hseat]; rfl) timed rfl
    refine htake (by rw [hseat]; rfl) ?_ hs
    rw [hseat]
    cases timedOut with
    | true => exact ⟨rfl, fun c hc => (by cases hc), .inr (.inr (Nat.le_refl _))⟩
    | false => exact .apply hsound hl.unlocked ht timed (Nat.le_refl _)
  · refine ⟨hinv, hl.unlocked, fun u c' hu => ?_, hl.attended.wakes hseat timedOut⟩
    by_cases hua : u = a.1
    · subst hua
      dsimp only at hu
      rw [Function.update_self] at hu
      exact hl.waits _ c' (by rw [hseat]; exact hu)
    · dsimp only at hu
      rw [Function.update_of_ne hua] at hu
      exact hl.waits u c' hu

/-- **No lookup sleeps for a resolver that is there**: from any state of the pool at which it is not
locked and no thread is in it, and as long as the threads look names up, while a thread sleeps as
many have been told as there are free indices. -/
theorem attended_run {as bs : List (T × Turn T PoolCall)} {h₀ h : PoolHall T}
    (hbefore : Run (poolMonitor T).Steps PoolHall.new as h₀)
    (hout : ∀ t, h₀.threads t = .out) (hlocked : h₀.shared.pool.m_bHasLockedAll = false)
    (hrun : Run (Guarded Looks (poolMonitor T).Steps) h₀ bs h) :
    Monitor.Attended (poolMonitor T) () (fun s => s.pool.m_nFreeCount) h := by
  have hinv := hbefore.invariant (I := Inv) (fun _ _ _ hi hs => hi.step hs) .new
  refine (hrun.invariant (I := Looking) (fun _ _ _ hl hs => hl.step hs.1 hs.2) ⟨hinv, hlocked,
    fun t c ht => ?_, fun t ht => ?_⟩).attended
  · rw [hout t] at ht
    cases ht
  · rw [hout t] at ht
    cases ht

theorem attended_run_handOver : ∃ h₀ h,
    Run (poolMonitor Bool).Steps PoolHall.new (handOver.take 1) h₀ ∧
    Run (Guarded Looks (poolMonitor Bool).Steps) h₀ (handOver.drop 1) h ∧
      Monitor.Attended (poolMonitor Bool) () (fun s => s.pool.m_nFreeCount) h := by
  have hbefore : Run (poolMonitor Bool).Steps PoolHall.new (handOver.take 1) _ :=
    .of_foldlM (Option.some_get (by decide : Option.isSome _ = true)).symm
  have hrun : Run (Guarded Looks (poolMonitor Bool).Steps)
      ((List.foldlM (poolMonitor Bool).step PoolHall.new (handOver.take 1)).get (by decide))
      (handOver.drop 1) _ :=
    .of_checked (fun _ _ => of_decide_eq_true)
      (Option.some_get (by decide : Option.isSome _ = true)).symm
  exact ⟨_, _, hbefore, hrun, attended_run hbefore (fun t => by cases t <;> rfl) rfl hrun⟩

end PoolHall

end

end Edm.System
