import Edm.Support.Split
import Mathlib.Algebra.BigOperators.Group.List.Basic

/-!
# Support — Arrivals

A socket that does not block, and what arrives on it.  `recv` is given a piece at a time, and the
part of a piece that it has room for; in between it may be interrupted, or find nothing there.
Behind the last arrival the peer is silent, and keeps the connection open.

* `recv_cases`: what `recv` takes, and what it leaves.
* `oneByOne`: a text that arrives byte by byte.
-/

namespace Support

/-- What `recv` comes upon.  An empty piece is the end of what the peer sends, and stays. -/
inductive Arrival where
  | piece (bytes : Text)
  | interrupted
  | drained
  | failed
  deriving DecidableEq

/-- What `recv` returns: a number of bytes, or -1 and an error. -/
inductive Received where
  | bytes (buffer : Text)
  | eintr
  | eagain
  | error

def recv (size : Nat) : List Arrival → Received × List Arrival
  | [] => (.eagain, [])
  | .piece [] :: s => (.bytes [], .piece [] :: s)
  | .piece p :: s =>
      if p.length ≤ size then (.bytes p, s)
      else (.bytes (p.take size), .piece (p.drop size) :: s)
  | .interrupted :: s => (.eintr, s)
  | .drained :: s => (.eagain, s)
  | .failed :: s => (.error, s)

/-- `select` waits until there is something to read, or until its timeout. -/
def selectRead (s : List Arrival) : Int := if s = [] then 0 else 1

namespace Arrival

/-- The bytes of an arrival. -/
def text : Arrival → Text
  | .piece p => p
  | .interrupted | .drained | .failed => []

/-- Neither an error nor the end. -/
def IsData : Arrival → Prop
  | .piece p => p ≠ []
  | .interrupted | .drained => True
  | .failed => False

end Arrival

/-- All bytes that arrive. -/
def arriving (s : List Arrival) : Text := s.flatMap Arrival.text

/-- More than the number of calls of `recv` that find something. -/
def callsOf (s : List Arrival) : Nat := (s.map fun a => a.text.length + 1).sum

@[simp] theorem arriving_nil : arriving [] = [] := rfl

@[simp] theorem arriving_cons (a : Arrival) (s : List Arrival) :
    arriving (a :: s) = a.text ++ arriving s := List.flatMap_cons

@[simp] theorem callsOf_cons (a : Arrival) (s : List Arrival) :
    callsOf (a :: s) = a.text.length + 1 + callsOf s := List.sum_cons

/-- The arrivals are data. -/
def AllData (s : List Arrival) : Prop := ∀ a ∈ s, a.IsData

theorem selectRead_of_ne {s : List Arrival} (h : s ≠ []) : selectRead s = 1 := if_neg h

theorem ne_nil_of_mem_arriving {c : Char} {s : List Arrival} (h : c ∈ arriving s) : s ≠ [] := by
  rintro rfl
  exact List.not_mem_nil h

/-- What `recv` does where only data arrives: something is there to be taken, or it is not. -/
theorem recv_cases {size : Nat} (hsize : 0 < size) {s : List Arrival} (hs : AllData s)
    (hne : s ≠ []) : ∃ r s', recv size s = (r, s') ∧ AllData s' ∧ callsOf s' < callsOf s ∧
      ((r = .eintr ∨ r = .eagain) ∧ arriving s = arriving s' ∨
        ∃ c t, r = .bytes (c :: t) ∧ (c :: t).length ≤ size ∧
          arriving s = (c :: t) ++ arriving s') := by
  obtain ⟨a, s, rfl⟩ := List.exists_cons_of_ne_nil hne
  obtain ⟨ha, hdata⟩ := List.forall_mem_cons.mp hs
  cases a with
  | piece p =>
    obtain ⟨c, t, rfl⟩ := List.exists_cons_of_ne_nil ha
    by_cases hfit : (c :: t).length ≤ size
    · refine ⟨.bytes (c :: t), s, if_pos hfit, hdata, ?_, .inr ⟨c, t, rfl, hfit, rfl⟩⟩
      rw [callsOf_cons]
      omega
    · obtain ⟨size, rfl⟩ := Nat.exists_eq_succ_of_ne_zero hsize.ne'
      -- The piece is cut, and its rest is the next one.
      have hrest : t.drop size ≠ [] := by
        rw [List.length_cons] at hfit
        rw [Ne, List.drop_eq_nil_iff]
        omega
      refine ⟨.bytes (c :: t.take size), .piece (t.drop size) :: s, if_neg hfit,
        List.forall_mem_cons.mpr ⟨hrest, hdata⟩, ?_, .inr ⟨c, t.take size, rfl, ?_, ?_⟩⟩
      · rw [callsOf_cons, callsOf_cons]
        simp only [Arrival.text, List.length_cons, List.length_drop]
        omega
      · rw [List.length_cons, List.length_take]
        omega
      · rw [arriving_cons, arriving_cons]
        simp only [Arrival.text]
        rw [List.cons_append, List.cons_append, ← List.append_assoc, List.take_append_drop]
  | interrupted =>
    exact ⟨.eintr, s, rfl, hdata, by rw [callsOf_cons]; omega, .inl ⟨.inl rfl, rfl⟩⟩
  | drained =>
    exact ⟨.eagain, s, rfl, hdata, by rw [callsOf_cons]; omega, .inl ⟨.inr rfl, rfl⟩⟩
  | failed => exact ha.elim

/-- Data arrives, and nothing stops it. -/
def Unbroken (s : List Arrival) : Prop := ∀ a ∈ s, a.IsData ∧ a ≠ .drained

theorem Unbroken.allData {s : List Arrival} (hs : Unbroken s) : AllData s := fun a ha => (hs a ha).1

/-- `recv` is interrupted, or takes something. -/
theorem recv_flow {size : Nat} (hsize : 0 < size) {s : List Arrival} (hs : Unbroken s) (hne : s ≠ []) :
    ∃ r s', recv size s = (r, s') ∧ Unbroken s' ∧ callsOf s' < callsOf s ∧
      (r = .eintr ∧ arriving s = arriving s' ∨ ∃ c t, r = .bytes (c :: t) ∧
        (c :: t).length ≤ size ∧ arriving s = (c :: t) ++ arriving s') := by
  obtain ⟨a, s, rfl⟩ := List.exists_cons_of_ne_nil hne
  obtain ⟨r, s', hrecv, hdata, hcalls, hr⟩ := recv_cases hsize hs.allData hne
  obtain ⟨⟨ha, hadrained⟩, hflow⟩ := List.forall_mem_cons.mp hs
  cases a with
  | piece p =>
      obtain ⟨c, t, rfl⟩ := List.exists_cons_of_ne_nil ha
      by_cases hfit : (c :: t).length ≤ size
      · obtain ⟨rfl, rfl⟩ := Prod.mk.inj (hrecv.symm.trans (if_pos hfit))
        exact ⟨_, _, hrecv, hflow, hcalls, .inr (by simpa using hr)⟩
      · obtain ⟨rfl, rfl⟩ := Prod.mk.inj (hrecv.symm.trans (if_neg hfit))
        refine ⟨_, _, hrecv, List.forall_mem_cons.mpr ⟨⟨(List.forall_mem_cons.mp hdata).1, by simp⟩,
          hflow⟩, hcalls, .inr (by simpa using hr)⟩
  | interrupted =>
      obtain ⟨rfl, rfl⟩ := Prod.mk.inj hrecv
      exact ⟨_, _, rfl, hflow, hcalls, .inl ⟨rfl, rfl⟩⟩
  | drained => exact absurd rfl hadrained
  | failed => exact ha.elim

/-! ### Byte by byte -/

/-- Each byte arrives by itself, and is read before the next one comes. -/
def oneByOne (t : Text) : List Arrival := t.flatMap fun c => [.piece [c], .drained]

theorem oneByOne_cons (c : Char) (t : Text) :
    oneByOne (c :: t) = .piece [c] :: .drained :: oneByOne t := rfl

@[simp] theorem arriving_oneByOne (t : Text) : arriving (oneByOne t) = t := by
  induction t with
  | nil => rfl
  | cons c t ih => rw [oneByOne_cons, arriving_cons, arriving_cons, ih]; rfl

theorem allData_oneByOne (t : Text) : AllData (oneByOne t) := by
  intro a ha
  obtain ⟨c, -, ha⟩ := List.mem_flatMap.mp ha
  rcases List.mem_pair.mp ha with rfl | rfl
  · exact List.cons_ne_nil _ _
  · trivial

theorem callsOf_oneByOne (t : Text) : callsOf (oneByOne t) = 3 * t.length := by
  induction t with
  | nil => rfl
  | cons c t ih =>
    rw [oneByOne_cons, callsOf_cons, callsOf_cons, ih]
    simp only [Arrival.text, List.length_cons, List.length_nil]
    omega

end Support
