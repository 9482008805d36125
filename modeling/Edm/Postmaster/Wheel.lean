import Edm.Support.Dlist
import Edm.Support.Ledger
import Mathlib.Algebra.BigOperators.Group.Finset.Basic

/-!
# Postmaster — Wheel

The timing wheel of `edmsmtp`: the contexts of a process are the nodes of doubly linked lists, one
for each partition of the time a connection may be silent.  A context that was active is put into
the partition that is cleared last; what is still in a partition when its turn comes is freed.

Memory is modelled field by field: `prevPtr p` is what `prev_ptr` of the context at `p` holds.
Every operation is an `Option`: `none` is a crash, through a pointer that is `NULL` or no longer
belongs to a context, or a division by zero.
-/

namespace Edm.Postmaster
open Support

abbrev Ptr := Nat

/-- `tw_part_t`. -/
structure TwPart where
  size : Nat
  head : Option Ptr
  tail : Option Ptr
  deriving DecidableEq

/-- The contexts, and the globals of the wheel: `count` is `twps.size()`. -/
structure Wheel where
  contexts : Ledger Ptr
  nodeTwid : Ptr → Int
  prevPtr : Ptr → Option Ptr
  nextPtr : Ptr → Option Ptr
  count : Nat
  twps : Nat → TwPart
  twid : Int
  useCount : Nat

/-- What fits an `int`. -/
def wrapInt (x : Int) : Int := Int.bmod x (2 ^ 32)

/-- An `int` where a `size_t` is expected. -/
def toSize (x : Int) : Nat := (x % 2 ^ 64).toNat

namespace Wheel

/-- A context is at `p`. -/
def Live (w : Wheel) (p : Ptr) : Prop := (w.contexts.live p).isSome

instance (w : Wheel) (p : Ptr) : Decidable (w.Live p) := inferInstanceAs (Decidable (_ = true))

/-- A pointer that is followed. -/
def deref (w : Wheel) (p : Option Ptr) : Option Ptr := p.filter fun p => decide (w.Live p)

def getTwpsPtr (w : Wheel) (id : Int) : Option Nat :=
  if 0 ≤ id ∧ id.toNat < w.count then some id.toNat else none

def twpsNextId (w : Wheel) : Option Int :=
  if w.count = 0 then none else some (wrapInt (toSize (w.twid + 1) % w.count : Nat))

/-- The number is unsigned when its remainder is taken, so `previd` is never negative. -/
def twpsPrevId (w : Wheel) : Option Int :=
  if w.count = 0 then none
  else
    let previd := wrapInt (toSize (w.twid - 1) % w.count : Nat)
    some (if previd < 0 then wrapInt (previd + w.count) else previd)

def twInsert (w : Wheel) (node : Ptr) : Option Nat → Option Wheel
  | none => some w
  | some i =>
      let twp := w.twps i
      if twp.size = 0 then
        some { w with
          prevPtr := Function.update w.prevPtr node none
          nextPtr := Function.update w.nextPtr node none
          twps := Function.update w.twps i ⟨twp.size + 1, some node, some node⟩ }
      else if twp.tail = some node then some w
      else do
        let tail ← w.deref twp.tail
        some { w with
          prevPtr := Function.update w.prevPtr node twp.tail
          nextPtr := Function.update (Function.update w.nextPtr node none) tail (some node)
          twps := Function.update w.twps i ⟨twp.size + 1, twp.head, some node⟩ }

/-- The neighbours of a node of the partition, and its ends, are told that it goes: the only one,
the first, the last, any other. -/
def unlinked (w : Wheel) (node : Ptr) (twp : TwPart) :
    Option ((Ptr → Option Ptr) × (Ptr → Option Ptr) × TwPart) :=
  if twp.size = 1 ∧ some node = twp.head ∧ some node = twp.tail then
    some (w.prevPtr, w.nextPtr, ⟨twp.size, none, none⟩)
  else if some node = twp.head then do
    let head ← w.deref (w.nextPtr node)
    some (Function.update w.prevPtr head none, w.nextPtr, ⟨twp.size, some head, twp.tail⟩)
  else if some node = twp.tail then do
    let tail ← w.deref (w.prevPtr node)
    some (w.prevPtr, Function.update w.nextPtr tail none, ⟨twp.size, twp.head, some tail⟩)
  else do
    let prev ← w.deref (w.prevPtr node)
    let next ← w.deref (w.nextPtr node)
    some (Function.update w.prevPtr next (some prev), Function.update w.nextPtr prev
      (some next), twp)

def twRemove (w : Wheel) (node : Ptr) : Option Nat → Option Wheel
  | none => some w
  | some i =>
      if (w.twps i).size < 1 then some w
      else do
        let (prevPtr, nextPtr, twp) ← w.unlinked node (w.twps i)
        some { w with
          prevPtr := Function.update prevPtr node none
          nextPtr := Function.update nextPtr node none
          twps := Function.update w.twps i { twp with size := twp.size - 1 } }

def twRset (w : Wheel) (node : Ptr) : Option Wheel := do
  let twid ← w.twpsPrevId
  let node ← w.deref (some node)
  if twid = w.nodeTwid node then some w
  else
    let w ←
      if w.nodeTwid node ≠ -1 then w.twRemove node (w.getTwpsPtr (w.nodeTwid node)) else some w
    let w := { w with nodeTwid := Function.update w.nodeTwid node twid }
    w.twInsert node (w.getTwpsPtr twid)

/-- What belongs to the context besides its node (its socket, its file, its buffers) goes with it.
-/
def cleanEdmsmtpContext (w : Wheel) (ctx : Ptr) : Option Wheel := do
  let ctx ← w.deref (some ctx)
  let w ← w.twRemove ctx (w.getTwpsPtr (w.nodeTwid ctx))
  let contexts ← w.contexts.free ctx
  some { w with contexts := contexts, useCount := if w.useCount > 0 then w.useCount - 1 else 0 }

/-- The loop of `tw_clear`, that frees at most `size` contexts. -/
def clearLoop : Nat → Option Ptr → Wheel → Option Wheel
  | _, none, w => some w
  | 0, some _, _ => none
  | size + 1, some ptr, w => do
      let ptr ← w.deref (some ptr)
      let next := w.nextPtr ptr
      let w ← w.cleanEdmsmtpContext ptr
      clearLoop size next w

def twClear (w : Wheel) : Option Nat → Option Wheel
  | none => some w
  | some i => do
      let w ← clearLoop (w.twps i).size (w.twps i).head w
      some { w with twps := Function.update w.twps i ⟨0, none, none⟩ }

end Wheel

/-- How `new` ends in `Create_edmsmtp_context`; `prev` and `next` are what the memory holds. -/
inductive Allocated where
  | noContext
  | noBuffer (p : Ptr)
  | context (p : Ptr) (prev next : Option Ptr)

namespace Wheel

/-- A context that is new: it is in no partition. -/
def allocate (w : Wheel) (p : Ptr) (prev next : Option Ptr) : Wheel :=
  { w with
    contexts := w.contexts.make p
    nodeTwid := Function.update w.nodeTwid p (-1)
    prevPtr := Function.update w.prevPtr p prev
    nextPtr := Function.update w.nextPtr p next }

def createEdmsmtpContext (w : Wheel) : Allocated → Option Wheel
  | .noContext => some w
  | .noBuffer p => do
      let contexts ← (w.contexts.make p).free p
      some { w with contexts := contexts }
  | .context p prev next => do
      let w ← (w.allocate p prev next).twRset p
      some { w with useCount := w.useCount + 1 }

end Wheel

/-! ### What the partitions hold -/

namespace Wheel
variable {w w' : Wheel} {lists : Nat → List Ptr} {i : Nat} {p : Ptr}

theorem deref_eq (h : w.Live p) : w.deref (some p) = some p := by
  rw [deref, Option.filter_some, if_pos (decide_eq_true h)]

/-- Every partition is a list, linked both ways, of contexts that name it; its size is their
number. -/
structure Linked (w : Wheel) (lists : Nat → List Ptr) : Prop where
  dlist : ∀ {i}, i < w.count →
    Dlist w.prevPtr w.nextPtr (w.twps i).head (w.twps i).tail (lists i)
  size : ∀ {i}, i < w.count → (w.twps i).size = (lists i).length
  placed : ∀ {i p}, i < w.count → p ∈ lists i → w.Live p ∧ w.nodeTwid p = i

/-- A context is in one partition. -/
theorem Linked.unique (h : w.Linked lists) {i j : Nat} (hi : i < w.count) (hj : j < w.count)
    (hpi : p ∈ lists i) (hpj : p ∈ lists j) : i = j :=
  Int.ofNat.inj ((h.placed hi hpi).2.symm.trans (h.placed hj hpj).2)

/-- `w'` differs from `w` in its links and partitions only. -/
def Relinked (w w' : Wheel) : Prop :=
  ∃ prevPtr nextPtr twps, w' = { w with prevPtr := prevPtr, nextPtr := nextPtr, twps := twps }

theorem getTwpsPtr_eq (h : i < w.count) : w.getTwpsPtr i = some i := by
  rw [getTwpsPtr, if_pos ⟨Int.natCast_nonneg i, h⟩]
  rfl

omit w w' lists i p in
/-- A place that is told is the one a pointer names. -/
theorem update_eq_ite (f : Ptr → Option Ptr) (p : Ptr) (x : Option Ptr) (q : Ptr) :
    Function.update f p x q = if some p = some q then x else f q := by
  rw [Function.update_apply]
  exact if_congr (eq_comm.trans (Option.some.injEq p q).symm.to_iff) rfl rfl

/-- What is told when a node goes: what stood before it is before what stood behind it. -/
theorem unlinked_spec {twp : TwPart} {a b : List Ptr}
    (h : Dlist w.prevPtr w.nextPtr twp.head twp.tail (a ++ p :: b))
    (hsize : twp.size = (a ++ p :: b).length) (hlive : ∀ q ∈ a ++ p :: b, w.Live q) :
    ∃ prevPtr nextPtr,
      w.unlinked p twp = some (prevPtr, nextPtr, ⟨twp.size, (a ++ b).head?, (a ++ b).getLast?⟩) ∧
      ∀ q, prevPtr q = (if b.head? = some q then a.getLast? else w.prevPtr q) ∧
        nextPtr q = if a.getLast? = some q then b.head? else w.nextPtr q := by
  obtain ⟨hprev, hnext⟩ := h.place rfl
  have hhead := h.head
  have htail := h.tail
  unfold unlinked
  rcases List.eq_nil_or_concat a with rfl | ⟨a, c, rfl⟩
  · cases b with
    | nil =>
      refine ⟨w.prevPtr, w.nextPtr, ?_, fun q => ⟨rfl, rfl⟩⟩
      rw [if_pos ⟨hsize, hhead.symm, htail.symm⟩]
      rfl
    | cons d b =>
      refine ⟨Function.update w.prevPtr d none, w.nextPtr, ?_, fun q => ⟨?_, rfl⟩⟩
      · have hd : w.Live d := hlive d (List.mem_cons_of_mem _ List.mem_cons_self)
        have hfirst : some p = twp.head := hhead.symm
        rw [if_neg fun hone => by simp [hsize] at hone, if_pos hfirst, hnext, List.head?_cons,
          deref_eq hd, htail]
        rfl
      · exact update_eq_ite ..
  · have hfirst : ¬ some p = twp.head := fun hp => by
      simpa using h.eq_nil_of_first rfl hp.symm
    have hc : w.Live c := hlive c (by simp)
    have hprev : w.prevPtr p = some c := hprev.trans (by simp)
    rw [if_neg fun hone => hfirst hone.2.1, if_neg hfirst]
    cases b with
    | nil =>
      refine ⟨w.prevPtr, Function.update w.nextPtr c none, ?_, fun q => ⟨rfl, ?_⟩⟩
      · rw [if_pos (htail.trans (by simp)).symm, hprev, deref_eq hc, hhead]
        simp
      · rw [List.concat_eq_append, List.getLast?_concat]
        exact update_eq_ite ..
    | cons d b =>
      have hd : w.Live d := hlive d (by simp)
      refine ⟨Function.update w.prevPtr d (some c), Function.update w.nextPtr c (some d), ?_,
        fun q => ⟨?_, ?_⟩⟩
      · have hlast : ¬ some p = twp.tail := fun hp => by
          simpa using h.eq_nil_of_last rfl hp.symm
        have hends :
            twp = ⟨twp.size, (a.concat c ++ d :: b).head?, (a.concat c ++ d :: b).getLast?⟩ := by
          cases twp
          rw [TwPart.mk.injEq]
          exact ⟨rfl, hhead.trans (by simp), htail.trans (by simp)⟩
        rw [if_neg hlast, hprev, hnext, List.head?_cons, deref_eq hc, deref_eq hd, ← hends]
        rfl
      · rw [List.concat_eq_append, List.getLast?_concat]
        exact update_eq_ite ..
      · rw [List.concat_eq_append, List.getLast?_concat]
        exact update_eq_ite ..

/-- One partition is relinked: the nodes of the others are not told. -/
theorem Linked.update (h : w.Linked lists) (hi : i < w.count) {xs : List Ptr} {twp : TwPart}
    {prevPtr nextPtr : Ptr → Option Ptr}
    (hlist : Dlist prevPtr nextPtr twp.head twp.tail xs) (hsize : twp.size = xs.length)
    (hxs : ∀ q ∈ xs, w.Live q ∧ w.nodeTwid q = i)
    (hother : ∀ q, q ∉ lists i → q ∉ xs → prevPtr q = w.prevPtr q ∧ nextPtr q = w.nextPtr q) :
    ({ w with
      prevPtr := prevPtr, nextPtr := nextPtr
      twps := Function.update w.twps i twp } : Wheel).Linked (Function.update lists i xs) where
  dlist {j} hj := by
    dsimp only at hj ⊢
    rcases eq_or_ne j i with rfl | hji
    · rw [Function.update_self, Function.update_self]
      exact hlist
    · rw [Function.update_of_ne hji, Function.update_of_ne hji]
      refine (h.dlist hj).congr fun q hq => hother q ?_ ?_
      · exact fun hqi => hji (h.unique hj hi hq hqi)
      · exact fun hqx => hji (Int.ofNat.inj ((h.placed hj hq).2.symm.trans (hxs q hqx).2))
  size {j} hj := by
    dsimp only
    rcases eq_or_ne j i with rfl | hji
    · rw [Function.update_self, Function.update_self]
      exact hsize
    · rw [Function.update_of_ne hji, Function.update_of_ne hji]
      exact h.size hj
  placed {j q} hj hq := by
    rcases eq_or_ne j i with rfl | hji
    · rw [Function.update_self] at hq
      exact hxs q hq
    · rw [Function.update_of_ne hji] at hq
      exact h.placed hj hq

/-- `tw_remove` takes a node out of its list. -/
theorem twRemove_spec (h : w.Linked lists) (hi : i < w.count) {a b : List Ptr}
    (hx : lists i = a ++ p :: b) :
    ∃ w', w.twRemove p (some i) = some w' ∧ w.Relinked w' ∧
      w'.Linked (Function.update lists i (a ++ b)) := by
  have hlist := h.dlist hi
  have hsize := h.size hi
  have hplaced : ∀ q ∈ a ++ p :: b, w.Live q ∧ w.nodeTwid q = i :=
    fun q hq => h.placed hi (hx ▸ hq)
  rw [hx] at hlist hsize
  obtain ⟨prevPtr, nextPtr, hunlinked, htold⟩ :=
    unlinked_spec hlist hsize fun q hq => (hplaced q hq).1
  have hpos : ¬ (w.twps i).size < 1 := by
    rw [hsize, List.length_append, List.length_cons]
    omega
  have hsub : ∀ q ∈ a ++ b, q ∈ a ++ p :: b := fun q hq =>
    (List.mem_append.mp hq).elim (List.mem_append_left _)
      fun hq => List.mem_append_right _ (List.mem_cons_of_mem _ hq)
  refine ⟨_, by rw [twRemove, if_neg hpos, hunlinked]; rfl, ⟨_, _, _, rfl⟩,
    h.update hi (hlist.unlink rfl rfl fun q hq => ?_) ?_ (fun q hq => hplaced q (hsub q hq))
      fun q hq _ => ?_⟩
  · have hqp : q ≠ p := by
      rintro rfl
      have hnodup := List.nodup_middle.mp hlist.nodup
      exact (List.nodup_cons.mp hnodup).1 hq
    rw [Function.update_of_ne hqp, Function.update_of_ne hqp]
    exact htold q
  · dsimp only
    rw [hsize, List.length_append, List.length_append, List.length_cons]
    omega
  · rw [hx] at hq
    have hqp : q ≠ p := by
      rintro rfl
      exact hq (List.mem_append_right _ List.mem_cons_self)
    rw [Function.update_of_ne hqp, Function.update_of_ne hqp, (htold q).1, (htold q).2,
      if_neg fun hb => hq (hsub q (List.mem_append_right _ (List.mem_of_head? hb))),
      if_neg fun ha => hq (hsub q (List.mem_append_left _ (List.mem_of_getLast? ha)))]
    exact ⟨rfl, rfl⟩

/-- `tw_insert` puts a context that is in no list behind the last node. -/
theorem twInsert_spec (h : w.Linked lists) (hi : i < w.count) (hp : w.Live p)
    (htwid : w.nodeTwid p = i) (hnew : p ∉ lists i) :
    ∃ w', w.twInsert p (some i) = some w' ∧ w.Relinked w' ∧
      w'.Linked (Function.update lists i (lists i ++ [p])) := by
  have hlist := h.dlist hi
  have hsize := h.size hi
  have hplaced : ∀ q ∈ lists i ++ [p], w.Live q ∧ w.nodeTwid q = i := by
    intro q hq
    rcases List.mem_append.mp hq with hq | hq
    · exact h.placed hi hq
    · rw [List.mem_singleton.mp hq]
      exact ⟨hp, htwid⟩
  have hlength : (w.twps i).size + 1 = (lists i ++ [p]).length := by
    rw [hsize, List.length_append, List.length_singleton]
  unfold twInsert
  dsimp only
  rcases List.eq_nil_or_concat (lists i) with hnil | ⟨xs, t, hx⟩
  · rw [if_pos (by rw [hsize, hnil]; rfl)]
    refine ⟨_, rfl, ⟨_, _, _, rfl⟩, h.update hi ?_ hlength hplaced fun q _ hq => ?_⟩
    · rw [hnil] at hlist ⊢
      refine hlist.concat List.not_mem_nil ?_ rfl ?_ fun y hy => absurd hy List.not_mem_nil
      · rw [hlist.head]
        rfl
      · rw [Function.update_self, Function.update_self, hlist.tail]
        exact ⟨rfl, rfl⟩
    · have hqp : q ≠ p := fun hqp => hq (List.mem_append_right _ (List.mem_singleton.mpr hqp))
      rw [Function.update_of_ne hqp, Function.update_of_ne hqp]
      exact ⟨rfl, rfl⟩
  · have hmem : t ∈ lists i := by
      rw [hx, List.concat_eq_append]
      exact List.mem_append_right _ List.mem_cons_self
    have htail : (w.twps i).tail = some t := by
      rw [hlist.tail, hx, List.concat_eq_append, List.getLast?_concat]
    have htp : t ≠ p := fun htp => hnew (htp ▸ hmem)
    rw [if_neg, if_neg, htail, deref_eq (h.placed hi hmem).1]
    · refine ⟨_, rfl, ⟨_, _, _, rfl⟩, h.update hi ?_ hlength hplaced fun q hqi hq => ?_⟩
      · refine hlist.concat hnew ?_ rfl ?_ fun y hy => ?_
        · rw [hlist.head, hx]
          cases xs <;> rfl
        · rw [Function.update_self, Function.update_of_ne htp.symm, Function.update_self, htail]
          exact ⟨rfl, rfl⟩
        · have hyp : y ≠ p := fun hyp => hnew (hyp ▸ hy)
          rw [Function.update_of_ne hyp, update_eq_ite, Function.update_of_ne hyp, htail]
          exact ⟨rfl, rfl⟩
      · have hqp : q ≠ p := fun hqp => hq (List.mem_append_right _ (List.mem_singleton.mpr hqp))
        have hqt : q ≠ t := fun hqt => hqi (hqt ▸ hmem)
        rw [Function.update_of_ne hqp, Function.update_of_ne hqt, Function.update_of_ne hqp]
        exact ⟨rfl, rfl⟩
    · rw [htail]
      exact fun h => htp (Option.some.inj h)
    · rw [hsize, hx, List.length_concat]
      exact Nat.succ_ne_zero _

/-! ### Sound wheels -/

/-- The number of nodes in all partitions. -/
def total (count : Nat) (lists : Nat → List Ptr) : Nat := ∑ i ∈ Finset.range count, (lists i).length

omit w w' p in
theorem total_update {count : Nat} (hi : i < count) (lists : Nat → List Ptr) (xs : List Ptr) :
    total count (Function.update lists i xs) + (lists i).length
      = total count lists + xs.length := by
  have hmem := Finset.mem_range.mpr hi
  rw [total, total, ← Finset.add_sum_erase _ _ hmem,
    ← Finset.add_sum_erase _ (fun j => (lists j).length) hmem, Function.update_self,
    Finset.sum_congr rfl fun j hj => by rw [Function.update_of_ne (Finset.ne_of_mem_erase hj)]]
  omega

/-- Every context is in one partition, is counted, and is freed once. -/
structure Sound (w : Wheel) (lists : Nat → List Ptr) : Prop extends w.Linked lists where
  all : ∀ {p}, w.Live p → ∃ i < w.count, p ∈ lists i
  useCount : w.useCount = total w.count lists
  exact : w.contexts.Exact
  small : w.count < 2 ^ 31
  turn : ∃ t : Nat, w.twid = t ∧ (0 < w.count → t < w.count)

theorem Linked.congr (h : w.Linked lists) (hcount : w'.count = w.count) (htwps : w'.twps = w.twps)
    (hsame : ∀ i < w.count, ∀ q ∈ lists i, w'.Live q ∧ w'.nodeTwid q = w.nodeTwid q ∧
      w'.prevPtr q = w.prevPtr q ∧ w'.nextPtr q = w.nextPtr q) : w'.Linked lists where
  dlist {i} hi := by
    rw [hcount] at hi
    rw [htwps]
    exact (h.dlist hi).congr fun q hq => (hsame i hi q hq).2.2
  size {i} hi := by
    rw [hcount] at hi
    rw [htwps]
    exact h.size hi
  placed {i q} hi hq := by
    rw [hcount] at hi
    exact ⟨(hsame i hi q hq).1, (hsame i hi q hq).2.1.trans (h.placed hi hq).2⟩

omit w w' lists i p in
theorem wrapInt_eq {n : Nat} (h : n < 2 ^ 31) : wrapInt n = n := by
  rw [wrapInt, Int.bmod_eq_emod_of_lt]
  · exact Int.emod_eq_of_lt (Int.natCast_nonneg n) (by omega)
  · rw [Int.emod_eq_of_lt (Int.natCast_nonneg n) (by omega)]
    omega

/-- The partition a context is put into. -/
theorem twpsPrevId_eq (hsmall : w.count < 2 ^ 31) (hpos : 0 < w.count) :
    w.twpsPrevId = some ((toSize (w.twid - 1) % w.count : Nat) : Int) := by
  have hk := Nat.mod_lt (toSize (w.twid - 1)) hpos
  rw [twpsPrevId, if_neg hpos.ne']
  dsimp only
  rw [wrapInt_eq (hk.trans hsmall), if_neg (Int.not_lt.mpr (Int.natCast_nonneg _))]

/-- It is one of the wheel. -/
theorem twpsPrevId_spec (hsmall : w.count < 2 ^ 31) (hpos : 0 < w.count) :
    ∃ k < w.count, w.twpsPrevId = some (k : Int) :=
  ⟨_, Nat.mod_lt _ hpos, twpsPrevId_eq hsmall hpos⟩

/-- The partitions take their turns one after the other. -/
theorem twpsNextId_spec (hsmall : w.count < 2 ^ 31) (hpos : 0 < w.count) {t : Nat}
    (ht : w.twid = t) (hlt : t < w.count) :
    w.twpsNextId = some (((t + 1) % w.count : Nat) : Int) := by
  have hk := Nat.mod_lt (toSize (w.twid + 1)) hpos
  rw [twpsNextId, if_neg hpos.ne', wrapInt_eq (hk.trans hsmall), ht]
  have hsize : toSize ((t : Int) + 1) = t + 1 := by
    rw [toSize, Int.emod_eq_of_lt (by omega) (by omega)]
    rfl
  rw [hsize]

/-- What the operations on a node leave alone. -/
structure Frame (w w' : Wheel) : Prop where
  count : w'.count = w.count
  twid : w'.twid = w.twid
  made : w'.contexts.made = w.contexts.made

theorem Linked.nodup (h : w.Linked lists) (hi : i < w.count) : (lists i).Nodup := (h.dlist hi).nodup

/-- A node that goes is in no list. -/
theorem Linked.not_mem_of_removed (h : w.Linked lists) (hi : i < w.count) {a b : List Ptr}
    (hx : lists i = a ++ p :: b) : ∀ j < w.count, p ∉ Function.update lists i (a ++ b) j := by
  intro j hj hp
  rcases eq_or_ne j i with rfl | hji
  · rw [Function.update_self] at hp
    have hnodup := h.nodup hj
    rw [hx] at hnodup
    exact (List.nodup_cons.mp (List.nodup_middle.mp hnodup)).1 hp
  · rw [Function.update_of_ne hji] at hp
    refine hji (h.unique hj hi hp ?_)
    rw [hx]
    exact List.mem_append_right _ List.mem_cons_self

/-- The other nodes stay where they are. -/
theorem mem_removed {a b : List Ptr} (hx : lists i = a ++ p :: b) {j : Nat} {q : Ptr} (hqp : q ≠ p)
    (hq : q ∈ lists j) : q ∈ Function.update lists i (a ++ b) j := by
  rcases eq_or_ne j i with rfl | hji
  · rw [Function.update_self]
    rw [hx] at hq
    rcases List.mem_append.mp hq with hq | hq
    · exact List.mem_append_left _ hq
    · exact List.mem_append_right _ (List.mem_of_ne_of_mem hqp hq)
  · rw [Function.update_of_ne hji]
    exact hq

/-- A context that is in no list is put into partition `k`: then all are in one. -/
theorem enter_spec (h : w.Linked lists) {k : Nat} (hk : k < w.count) (hp : w.Live p)
    (hnew : ∀ j < w.count, p ∉ lists j)
    (hall : ∀ {q}, w.Live q → q ≠ p → ∃ j < w.count, q ∈ lists j) :
    ∃ w' lists',
      ({ w with nodeTwid := Function.update w.nodeTwid p k } : Wheel).twInsert
        p (some k) = some w' ∧
        w'.Linked lists' ∧ (∀ {q}, w'.Live q → ∃ j < w'.count, q ∈ lists' j) ∧
        total w'.count lists' = total w.count lists + 1 ∧ w.Frame w' ∧ w'.contexts = w.contexts ∧
        w'.useCount = w.useCount := by
  have hnamed : ({ w with nodeTwid := Function.update w.nodeTwid p k } : Wheel).Linked lists :=
    h.congr rfl rfl fun j hj q hq => by
      have hqp : q ≠ p := fun hqp => hnew j hj (hqp ▸ hq)
      exact ⟨(h.placed hj hq).1, Function.update_of_ne hqp _ _, rfl, rfl⟩
  obtain ⟨w', hw', hrel, hlinked⟩ :=
    twInsert_spec hnamed hk hp (Function.update_self ..) (hnew k hk)
  obtain ⟨prevPtr, nextPtr, twps, rfl⟩ := hrel
  refine ⟨_, _, hw', hlinked, fun {q} hq => ?_, ?_, ⟨rfl, rfl, rfl⟩, rfl, rfl⟩
  · rcases eq_or_ne q p with rfl | hqp
    · refine ⟨k, hk, ?_⟩
      rw [Function.update_self]
      exact List.mem_append_right _ (List.mem_singleton.mpr rfl)
    · obtain ⟨j, hj, hqj⟩ := hall hq hqp
      refine ⟨j, hj, ?_⟩
      rcases eq_or_ne j k with rfl | hjk
      · rw [Function.update_self]
        exact List.mem_append_left _ hqj
      · rw [Function.update_of_ne hjk]
        exact hqj
  · have htotal := total_update hk lists (lists k ++ [p])
    rw [List.length_append, List.length_singleton] at htotal
    dsimp only
    omega

/-- A context that was active goes to the partition that is cleared last. -/
theorem Sound.twRset (h : w.Sound lists) (hpos : 0 < w.count) (hp : w.Live p) :
    ∃ w' lists', w.twRset p = some w' ∧ w'.Sound lists' ∧ w.Frame w' ∧ w'.contexts
      = w.contexts := by
  obtain ⟨k, hk, hprev⟩ := twpsPrevId_spec h.small hpos
  obtain ⟨i, hi, hpi⟩ := h.all hp
  have htwid := (h.placed hi hpi).2
  simp only [Wheel.twRset, hprev, deref_eq hp, Option.bind_eq_bind, Option.bind_some, htwid]
  split
  next => exact ⟨w, lists, rfl, h, ⟨rfl, rfl, rfl⟩, rfl⟩
  next hne =>
    obtain ⟨a, b, hx⟩ := List.append_of_mem hpi
    have htotal := total_update hi lists (a ++ b)
    rw [hx, List.length_append, List.length_append, List.length_cons] at htotal
    obtain ⟨w₁, hremove, hrel, hlinked⟩ := twRemove_spec h.toLinked hi hx
    rw [if_pos (by omega), getTwpsPtr_eq hi, hremove, Option.bind_some]
    obtain ⟨prevPtr, nextPtr, twps, rfl⟩ := hrel
    obtain ⟨w', lists', hinsert, hlinked', hall, htotal', hframe, hcontexts, huse⟩ :=
      enter_spec hlinked hk hp (h.not_mem_of_removed hi hx) fun {q} hq hqp =>
        (h.all hq).imp fun _ hj => ⟨hj.1, mem_removed hx hqp hj.2⟩
    refine ⟨w', lists', ?_, ⟨hlinked', hall, ?_, hcontexts ▸ h.exact, hframe.count ▸ h.small, ?_⟩,
      ⟨hframe.count, hframe.twid, hframe.made⟩, hcontexts⟩
    · rw [← hinsert]
      exact congrArg _ (getTwpsPtr_eq hk)
    · rw [huse, h.useCount, htotal']
      dsimp only
      omega
    · rw [hframe.twid, hframe.count]
      exact h.turn

/-- A context that is freed leaves its list. -/
theorem Sound.clean (h : w.Sound lists) (hi : i < w.count) {a b : List Ptr}
    (hx : lists i = a ++ p :: b) :
    ∃ w', w.cleanEdmsmtpContext p = some w' ∧ w'.Sound (Function.update lists i (a ++ b)) ∧
      w.Frame w' ∧ ∀ q, w'.Live q ↔ w.Live q ∧ q ≠ p := by
  have hpi : p ∈ lists i := hx ▸ List.mem_append_right _ List.mem_cons_self
  obtain ⟨hp, htwid⟩ := h.placed hi hpi
  have htotal := total_update hi lists (a ++ b)
  rw [hx, List.length_append, List.length_append, List.length_cons] at htotal
  obtain ⟨w₁, hremove, hrel, hlinked⟩ := twRemove_spec h.toLinked hi hx
  obtain ⟨prevPtr, nextPtr, twps, rfl⟩ := hrel
  obtain ⟨m, hm⟩ := Option.isSome_iff_exists.mp hp
  have hfree := Ledger.free_eq hm
  simp only [cleanEdmsmtpContext, deref_eq hp, htwid, getTwpsPtr_eq hi, hremove, hfree,
    Option.bind_eq_bind, Option.bind_some]
  have hlive : ∀ q, (Function.update w.contexts.live p none q).isSome ↔ w.Live q ∧ q ≠ p := by
    intro q
    rw [Function.update_apply]
    split
    next hqp => exact iff_of_false Bool.false_ne_true fun hq => hq.2 hqp
    next hqp => exact (and_iff_left hqp).symm
  refine ⟨_, rfl, ⟨?_, ?_, ?_, h.exact.free hfree, h.small, h.turn⟩, ⟨rfl, rfl, rfl⟩, hlive⟩
  · refine hlinked.congr rfl rfl fun j hj q hq =>
      ⟨(hlive q).mpr ⟨(hlinked.placed hj hq).1, ?_⟩, rfl, rfl, rfl⟩
    rintro rfl
    exact h.not_mem_of_removed hi hx j hj hq
  · intro q hq
    obtain ⟨hq, hqp⟩ := (hlive q).mp hq
    exact (h.all hq).imp fun _ hj => ⟨hj.1, mem_removed hx hqp hj.2⟩
  · dsimp only
    rw [h.useCount]
    split <;> omega

/-- The loop of `tw_clear` frees the contexts of a partition, first to last. -/
theorem Sound.clearLoop (xs : List Ptr) {size : Nat} (h : w.Sound lists) (hi : i < w.count)
    (hx : lists i = xs) (hsize : xs.length ≤ size) :
    ∃ w', clearLoop size xs.head? w = some w' ∧ w'.Sound (Function.update lists i []) ∧
      w.Frame w' := by
  induction xs generalizing w lists size with
  | nil =>
    refine ⟨w, by cases size <;> rfl, ?_, ⟨rfl, rfl, rfl⟩⟩
    rw [← hx, Function.update_eq_self]
    exact h
  | cons p xs ih =>
    obtain ⟨size, rfl⟩ : ∃ k, size = k + 1 :=
      Nat.exists_eq_add_one.mpr (Nat.lt_of_lt_of_le (Nat.succ_pos _) hsize)
    have hp : w.Live p := (h.placed hi (hx ▸ List.mem_cons_self)).1
    have hnext : w.nextPtr p = xs.head? := ((h.dlist hi).place (a := []) hx).2
    obtain ⟨w₁, hclean, hsound, hframe, -⟩ := h.clean (a := []) hi hx
    obtain ⟨w', hloop, hsound', hframe'⟩ := ih hsound (hframe.count.symm ▸ hi)
      (Function.update_self ..) (Nat.le_of_succ_le_succ hsize)
    refine ⟨w', ?_, by rw [Function.update_idem] at hsound'; exact hsound',
      ⟨hframe'.count.trans hframe.count, hframe'.twid.trans hframe.twid,
        hframe'.made.trans hframe.made⟩⟩
    simp only [List.head?_cons, Wheel.clearLoop, deref_eq hp, hclean, hnext, Option.bind_eq_bind,
      Option.bind_some]
    exact hloop

/-- `tw_clear` frees what is in a partition. -/
theorem Sound.twClear (h : w.Sound lists) (hi : i < w.count) :
    ∃ w', w.twClear (some i) = some w' ∧ w'.Sound (Function.update lists i []) ∧ w.Frame w' := by
  obtain ⟨w₁, hloop, hsound, hframe⟩ := h.clearLoop (lists i) hi rfl (h.size hi).ge
  simp only [Wheel.twClear, (h.dlist hi).head, hloop, Option.bind_eq_bind, Option.bind_some]
  refine ⟨_, rfl, ⟨?_, hsound.all, hsound.useCount, hsound.exact, hsound.small, hsound.turn⟩,
    ⟨hframe.count, hframe.twid, hframe.made⟩⟩
  have hempty :
      Dlist w₁.prevPtr w₁.nextPtr (TwPart.mk 0 none none).head (TwPart.mk 0 none none).tail [] :=
    .nil
  have hlinked := hsound.toLinked.update (hframe.count.symm ▸ hi) hempty rfl
    (fun q hq => absurd hq List.not_mem_nil) fun _ _ _ => ⟨rfl, rfl⟩
  rw [Function.update_idem] at hlinked
  exact hlinked

/-- A context is allocated where none is. -/
def Fresh (w : Wheel) : Allocated → Prop
  | .noContext => True
  | .noBuffer p | .context p _ _ => ¬ w.Live p

instance (w : Wheel) (r : Allocated) : Decidable (w.Fresh r) := by
  cases r <;> unfold Fresh <;> infer_instance

/-- A context that is new is in no list. -/
theorem Linked.allocate (h : w.Linked lists) (hp : ¬ w.Live p) (prev next : Option Ptr) :
    (w.allocate p prev next).Linked lists ∧ ∀ j < w.count, p ∉ lists j := by
  have hne : ∀ j < w.count, ∀ q ∈ lists j, q ≠ p := by
    rintro j hj q hq rfl
    exact hp (h.placed hj hq).1
  refine ⟨h.congr rfl rfl fun j hj q hq => ?_, fun j hj hpj => hne j hj p hpj rfl⟩
  have hqp := hne j hj q hq
  refine ⟨?_, Function.update_of_ne hqp _ _, Function.update_of_ne hqp _ _,
    Function.update_of_ne hqp _ _⟩
  rw [Live, Wheel.allocate, Ledger.make_live_of_ne _ hqp]
  exact (h.placed hj hq).1

theorem live_allocate (prev next : Option Ptr) : (w.allocate p prev next).Live p := by
  rw [Live, allocate, Ledger.make_live_self]
  rfl

theorem live_allocate_of_ne {q : Ptr} (hqp : q ≠ p) (prev next : Option Ptr) :
    (w.allocate p prev next).Live q ↔ w.Live q := by
  rw [Live, Live, allocate, Ledger.make_live_of_ne _ hqp]

/-- A context that is created is in one list. -/
theorem Sound.create (h : w.Sound lists) {r : Allocated} (hr : w.Fresh r)
    (hpos : ∀ p prev next, r = .context p prev next → 0 < w.count) :
    ∃ w' lists', w.createEdmsmtpContext r = some w' ∧ w'.Sound lists' ∧ w'.count = w.count ∧
      ∀ q, w.Live q → w'.Live q := by
  cases r with
  | noContext => exact ⟨w, lists, rfl, h, rfl, fun _ => id⟩
  | noBuffer p =>
    have hp : w.contexts.live p = none := Option.not_isSome_iff_eq_none.mp hr
    have hfree := Ledger.free_eq (w.contexts.make_live_self p)
    have hlive : Function.update (w.contexts.make p).live p none = w.contexts.live := by
      rw [Ledger.make, Function.update_idem, ← hp, Function.update_eq_self]
    simp only [createEdmsmtpContext, hfree, hlive, Option.bind_eq_bind, Option.bind_some]
    rw [hlive] at hfree
    exact ⟨_, lists, rfl, ⟨h.toLinked.congr rfl rfl fun j hj q hq =>
      ⟨(h.placed hj hq).1, rfl, rfl, rfl⟩, h.all, h.useCount, (h.exact.make hp).free hfree, h.small,
      h.turn⟩, rfl, fun _ => id⟩
  | context p prev next =>
    obtain ⟨hlinked, hnew⟩ := h.toLinked.allocate hr prev next
    have hp := w.live_allocate (p := p) prev next
    obtain ⟨k, hk, hprev⟩ := twpsPrevId_spec (w := w.allocate p prev next) h.small
        (hpos p prev next rfl)
    obtain ⟨w', lists', hinsert, hlinked', hall, htotal, hframe, hcontexts, huse⟩ :=
      enter_spec hlinked hk hp hnew fun {q} hq hqp => h.all ((live_allocate_of_ne hqp _ _).mp hq)
    have hrset : (w.allocate p prev next).twRset p = some w' := by
      have htwid : (w.allocate p prev next).nodeTwid p = -1 := Function.update_self ..
      simp only [Wheel.twRset, hprev, deref_eq hp, Option.bind_eq_bind, Option.bind_some, htwid]
      rw [if_neg (by omega), if_neg fun hne => hne rfl, ← hinsert]
      exact congrArg _ (getTwpsPtr_eq hk)
    simp only [createEdmsmtpContext, hrset, Option.bind_eq_bind, Option.bind_some]
    refine ⟨_, lists', rfl, ⟨?_, hall, ?_, ?_, ?_, ?_⟩, hframe.count, fun q hq => ?_⟩
    · exact hlinked'.congr rfl rfl fun j hj q hq => ⟨(hlinked'.placed hj hq).1, rfl, rfl, rfl⟩
    · dsimp only
      rw [huse, htotal]
      exact congrArg (· + 1) h.useCount
    · dsimp only
      rw [hcontexts]
      exact h.exact.make (Option.not_isSome_iff_eq_none.mp hr)
    · exact hframe.count ▸ h.small
    · dsimp only
      rw [hframe.twid, hframe.count]
      exact h.turn
    · have hqp : q ≠ p := fun hqp => hr (hqp ▸ hq)
      rw [Live, hcontexts]
      exact (live_allocate_of_ne hqp _ _).mpr hq

end Wheel

end Edm.Postmaster
