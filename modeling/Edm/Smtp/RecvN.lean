import Edm.Support.Overwrite

/-!
# Smtp — receiving

`SmtpSvr::recv_n` fills a buffer from a socket.  It goes on after a signal, it gives what it has
when nothing more is there for now, but when the client closes or the socket fails it returns what
`recv` has returned, 0 or -1, whatever it has stored before.

* **No byte is lost** exactly when no close and no error comes behind bytes that leave the buffer
  unfilled (`CutShort`, `recvN_iff`).
-/

namespace Edm.Smtp.RecvN
open Support

/-! ### The code -/

/-- What a call of `recv` gives: as much of `c :: t` as there is room for, -1 with `errno`, or 0
where the client has closed. -/
inductive Recv where
  | data (c : Char) (t : Text)
  | eintr
  | eagain
  | error
  | close

/-- The loop of `recv_n`: the value that is returned, and the buffer.  There is none while the
loop waits for `recv`. -/
def recvLoop : List Recv → Text → Nat → Option (Int × Text)
  | [], buffer, bytesTransferred =>
      if buffer.length > bytesTransferred then none else some (bytesTransferred, buffer)
  | r :: rs, buffer, bytesTransferred =>
      if buffer.length > bytesTransferred then
        match r with
        | .eintr => recvLoop rs buffer bytesTransferred
        | .eagain => some (bytesTransferred, buffer)
        | .error => some (-1, buffer)
        | .close => some (0, buffer)
        | .data c t =>
            let bytes := (c :: t).take (buffer.length - bytesTransferred)
            recvLoop rs (overlay buffer bytesTransferred bytes) (bytesTransferred + bytes.length)
      else some (bytesTransferred, buffer)

/-- `recv_n` into the `length` bytes of `buffer`, which `memset` clears. -/
def recvN (handle : Int) (buffer : Text) (rs : List Recv) : Option (Int × Text) :=
  if handle < 1 then some (-1, buffer) else recvLoop rs (buffer.map fun _ => nul) 0

/-! ### What is received -/

/-- The bytes that `recv` gives a call which has so much room. -/
def received : Nat → List Recv → Text
  | 0, _ => []
  | room + 1, .eintr :: rs => received (room + 1) rs
  | room + 1, .data c t :: rs => c :: t.take room ++ received (room - (t.take room).length) rs
  | _, _ => []

/-- The value that is returned counts the bytes of the buffer that were received; it is 0 or -1
only when there are none. -/
def Accounted (got : Text) (r : Int × Text) : Prop :=
  (0 < r.1 → r.1 = got.length ∧ r.2.take got.length = got) ∧ (r.1 = 0 ∨ r.1 = -1 → got = [])

/-- The loop goes on after such a result. -/
def Recv.passes : Recv → Bool
  | .data _ _ | .eintr => true
  | .eagain | .error | .close => false

def Recv.size : Recv → Nat
  | .data _ t => t.length + 1
  | _ => 0

/-- How many bytes come before the first result that ends the loop. -/
def total (rs : List Recv) : Nat := ((rs.takeWhile Recv.passes).map Recv.size).sum

/-- `recv` fails, or gives 0. -/
def Recv.fails : Recv → Bool
  | .error | .close => true
  | _ => false

/-- A close or an error comes behind `n` bytes and the bytes of this call, and they do not fill
the buffer. -/
def CutShort (length n : Nat) (rs : List Recv) : Prop :=
  ((rs.dropWhile Recv.passes).head?.any Recv.fails) = true ∧ 0 < n + total rs
    ∧ n + total rs < length

instance (length n : Nat) (rs : List Recv) : Decidable (CutShort length n rs) :=
  inferInstanceAs (Decidable (_ ∧ _))

theorem received_zero (rs : List Recv) : received 0 rs = [] := by
  rw [received]

theorem received_eintr (room : Nat) (rs : List Recv) :
    received room (.eintr :: rs) = received room rs := by
  cases room with
  | zero => rw [received_zero, received_zero]
  | succ room => rw [received]

theorem received_data {room : Nat} (h : 0 < room) (c : Char) (t : Text) (rs : List Recv) :
    received room (.data c t :: rs)
      = (c :: t).take room ++ received (room - ((c :: t).take room).length) rs := by
  obtain ⟨room, rfl⟩ := Nat.exists_eq_succ_of_ne_zero (Nat.ne_of_gt h)
  rw [received, List.take_succ_cons, List.length_cons, Nat.succ_sub_succ_eq_sub]

/-- Nothing is received from a result that ends the loop on. -/
theorem received_stop {r : Recv} (room : Nat) (h : r.passes = false) (rs : List Recv) :
    received room (r :: rs) = [] := by
  cases room with
  | zero => exact received_zero _
  | succ room =>
      cases r with
      | data c t => cases h
      | eintr => cases h
      | eagain | error | close => rw [received] <;> nofun

theorem total_eintr (rs : List Recv) : total (.eintr :: rs) = total rs := by
  rw [total, List.takeWhile_cons_of_pos rfl, List.map_cons, List.sum_cons]
  exact Nat.zero_add _

theorem cutShort_eintr {length n : Nat} {rs : List Recv} :
    CutShort length n (.eintr :: rs) ↔ CutShort length n rs := by
  rw [CutShort, total_eintr, List.dropWhile_cons_of_pos rfl, CutShort]

theorem total_data (c : Char) (t : Text) (rs : List Recv) :
    total (.data c t :: rs) = (c :: t).length + total rs := by
  rw [total, List.takeWhile_cons_of_pos rfl, List.map_cons, List.sum_cons]
  rfl

/-- A piece that the buffer has room for counts; behind one that fills it nothing does. -/
theorem cutShort_data {length n : Nat} (c : Char) (t : Text) (rs : List Recv) :
    CutShort length n (.data c t :: rs)
      ↔ CutShort length (n + ((c :: t).take (length - n)).length) rs := by
  rw [CutShort, total_data, List.dropWhile_cons_of_pos rfl, CutShort, List.length_take]
  refine and_congr_right fun _ => ?_
  rw [List.length_cons]
  omega

/-! ### The loop -/

/-- A buffer that is full. -/
theorem recvLoop_full (rs : List Recv) {buffer : Text} {n : Nat} (h : buffer.length ≤ n) :
    recvLoop rs buffer n = some ((n : Int), buffer) := by
  cases rs with
  | nil => rw [recvLoop, if_neg (by omega)]
  | cons r rs =>
      rw [recvLoop.eq_def]
      exact if_neg (by omega)

theorem accounted_take {buffer : Text} {n : Nat} (h : n ≤ buffer.length) :
    Accounted (buffer.take n) ((n : Int), buffer) := by
  have hlen : (buffer.take n).length = n := List.length_take_of_le h
  constructor
  · intro _
    dsimp only
    rw [hlen]
    exact ⟨rfl, rfl⟩
  · intro hn
    have : n = 0 := by
      dsimp only at hn
      omega
    rw [this, List.take_zero]

/-- A value that counts nothing. -/
theorem forall_accounted_iff {buffer : Text} {n : Nat} (hn : n ≤ buffer.length) {value : Int}
    (h : value = 0 ∨ value = -1) :
    (∀ r, some (value, buffer) = some r → Accounted (buffer.take n) r) ↔ ¬ 0 < n := by
  constructor
  · intro ha hpos
    have hnil := (ha _ rfl).2 h
    rw [← List.length_eq_zero_iff, List.length_take_of_le hn] at hnil
    omega
  · intro hzero r hr
    cases hr
    rw [Nat.eq_zero_of_not_pos hzero, List.take_zero]
    refine ⟨fun hv => ?_, fun _ => rfl⟩
    dsimp only at hv
    omega

/-- Where `recv` fails at once. -/
theorem cutShort_fails {r : Recv} (hp : r.passes = false) (hf : r.fails = true) {length n : Nat}
    (h : n < length) (rs : List Recv) : CutShort length n (r :: rs) ↔ 0 < n := by
  have htotal : total (r :: rs) = 0 := by
    rw [total, List.takeWhile_cons_of_neg (by rw [hp]; exact Bool.false_ne_true)]
    rfl
  rw [CutShort, htotal, List.dropWhile_cons_of_neg (by rw [hp]; exact Bool.false_ne_true),
    List.head?_cons, Option.any_some]
  simp only [hf, Nat.add_zero, h, and_true, true_and]

/-- What the loop returns is accounted for exactly when it is not cut short.  `n` bytes were
received before. -/
theorem recvLoop_iff (rs : List Recv) : ∀ (buffer : Text) (n : Nat), n ≤ buffer.length →
    ((∀ r, recvLoop rs buffer n = some r →
        Accounted (buffer.take n ++ received (buffer.length - n) rs) r)
      ↔ ¬ CutShort buffer.length n rs) := by
  induction rs with
  | nil =>
      intro buffer n hn
      have hnot : ¬ CutShort buffer.length n [] := fun h => Bool.false_ne_true h.1
      have hgot : received (buffer.length - n) [] = [] := by
        cases buffer.length - n <;> rfl
      refine iff_of_true (fun r hr => ?_) hnot
      rw [recvLoop] at hr
      split at hr
      · cases hr
      · cases hr
        rw [hgot, List.append_nil]
        exact accounted_take hn
  | cons r rs ih =>
      intro buffer n hn
      rcases Nat.lt_or_ge n buffer.length with hroom | hfull
      · cases r with
        | eintr =>
            rw [recvLoop, if_pos hroom, received_eintr, cutShort_eintr]
            exact ih buffer n hn
        | eagain =>
            have hnot : ¬ CutShort buffer.length n (.eagain :: rs) :=
              fun h => Bool.false_ne_true h.1
            refine iff_of_true (fun v hv => ?_) hnot
            rw [recvLoop, if_pos hroom] at hv
            cases hv
            rw [received_stop _ rfl, List.append_nil]
            exact accounted_take hn
        | error =>
            rw [recvLoop, if_pos hroom, received_stop _ rfl, List.append_nil,
              cutShort_fails rfl rfl hroom]
            exact forall_accounted_iff hn (.inr rfl)
        | close =>
            rw [recvLoop, if_pos hroom, received_stop _ rfl, List.append_nil,
              cutShort_fails rfl rfl hroom]
            exact forall_accounted_iff hn (.inl rfl)
        | data c t =>
            have hlen : ((c :: t).take (buffer.length - n)).length ≤ buffer.length - n :=
              List.length_take_le _ _
            have hover := length_overlay (s := buffer) (p := n)
              (t := (c :: t).take (buffer.length - n)) (by omega)
            have h := ih (overlay buffer n ((c :: t).take (buffer.length - n)))
              (n + ((c :: t).take (buffer.length - n)).length) (by omega)
            rw [hover, take_overlay hn, List.append_assoc, ← Nat.sub_sub] at h
            rw [recvLoop, if_pos hroom, received_data (by omega), cutShort_data]
            exact h
      · have hnot : ¬ CutShort buffer.length n (r :: rs) := fun h => by
          have := h.2.2
          omega
        refine iff_of_true (fun v hv => ?_) hnot
        rw [recvLoop_full _ hfull] at hv
        cases hv
        rw [Nat.sub_eq_zero_of_le hfull, received_zero, List.append_nil]
        exact accounted_take hn

/-! ### The function -/

/-- The bytes that a call receives. -/
def receivedBy (handle : Int) (length : Nat) (rs : List Recv) : Text :=
  if handle < 1 then [] else received length rs

/-- **No byte is lost** exactly when the call is not cut short. -/
theorem recvN_iff (handle : Int) (buffer : Text) (rs : List Recv) :
    (∀ r, recvN handle buffer rs = some r →
        Accounted (receivedBy handle buffer.length rs) r)
      ↔ (1 ≤ handle → ¬ CutShort buffer.length 0 rs) := by
  rw [recvN, receivedBy]
  split
  next h =>
    refine iff_of_true (fun r hr => ?_) fun hle => absurd h (by omega)
    cases hr
    refine ⟨fun hv => ?_, fun _ => rfl⟩
    dsimp only at hv
    omega
  next h =>
    have hloop := recvLoop_iff rs (buffer.map fun _ => nul) 0 (Nat.zero_le _)
    rw [List.take_zero, List.nil_append, List.length_map, Nat.sub_zero] at hloop
    rw [hloop]
    exact ⟨fun hc _ => hc, fun hc => hc (by omega)⟩

/-- `QUIT`, and the client closes: the bytes are in the buffer, and the value is 0. -/
theorem recvN_quit : ¬ ∀ (handle : Int) (buffer : Text) (rs : List Recv) (r : Int × Text),
    recvN handle buffer rs = some r → Accounted (receivedBy handle buffer.length rs) r := by
  intro h
  have hlost := h 3 (List.replicate 8 nul) [.data 'Q' ['U', 'I', 'T', '\r', '\n'], .close]
    _ rfl
  exact absurd (hlost.2 (.inl rfl)) (by decide)

end Edm.Smtp.RecvN
