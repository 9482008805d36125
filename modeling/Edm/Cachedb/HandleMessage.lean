import Edm.Support.Overwrite

/-!
# Cachedb — HandleMessage

The body of a message comes in pieces, and `CacheDbApp::HandleMessage` parses what it has when as
many bytes as were announced are there, or when nothing comes for two seconds.

The result of `recv` goes into the counters as it is, also when it is `-1`.  A failure moves the
next piece back by a byte, in front of the block when nothing was there, and the count is then one
short when the message is complete.  `complete_iff` says which sequences of results do no harm.
-/

namespace Edm.Cachedb.HandleMessage

open Support

/-! ### The loop -/

/-- What `select` and `recv` report. -/
inductive Event where
  | selectFail
  | timeout
  /-- `recv` returns 0. -/
  | closed
  /-- `recv` returns -1. -/
  | failed
  /-- This many bytes, and one more, can be read. -/
  | ready (n : Nat)

inductive Outcome where
  /-- `ParseMessage` is called with this block. -/
  | parsed (rsp_msg : Text)
  | dropped
  /-- There are no more events. -/
  | waiting
  /-- A piece is written outside the block, or a counter leaves its type. -/
  | stray

/-- How the handler ends, and how many bytes it has received. -/
structure Ended where
  outcome : Outcome
  got : Nat

/-- The bytes of the stream from one on. -/
def slice (stream : Nat → Char) (from' n : Nat) : Text :=
  (List.range n).map fun d => stream (from' + d)

/-- `while (1)`, with the counters `i` and `j`. -/
def loop (h_length : Nat) (stream : Nat → Char) :
    Int → Nat → Nat → Text → List Event → Ended
  | i, j, got, rsp_msg, es =>
      if i = h_length then ⟨.parsed rsp_msg, got⟩
      else match es with
        | [] => ⟨.waiting, got⟩
        | .selectFail :: _ => ⟨.dropped, got⟩
        | .timeout :: _ => ⟨.parsed rsp_msg, got⟩
        | .closed :: _ => ⟨.dropped, got⟩
        | .failed :: es =>
            if i = -2 ^ 31 then ⟨.stray, got⟩
            else loop h_length stream (i - 1) ((j + 1) % 2 ^ 32) got rsp_msg es
        | .ready n :: es =>
            let ret := min (n + 1) j
            if i < 0 then ⟨.stray, got + ret⟩
            else (write rsp_msg i.toNat (slice stream got ret)).elim ⟨.stray, got + ret⟩
              fun rsp_msg => loop h_length stream (i + ret) (j - ret) (got + ret) rsp_msg es

/-- `CacheDbApp::HandleMessage`, behind the length. -/
def handleMessage (h_length : Nat) (stream : Nat → Char) (es : List Event) : Ended :=
  if 1024 * 1024 ≤ h_length then ⟨.dropped, 0⟩
  else loop h_length stream 0 h_length 0 (List.replicate (h_length + 1) nul) es

/-! ### What it is for -/

/-- The message is parsed just when the announced bytes are there, and it is these. -/
def Ended.Complete (h_length : Nat) (stream : Nat → Char) (r : Ended) : Prop :=
  match r.outcome with
  | .parsed rsp_msg => h_length ≤ r.got ∧ rsp_msg = slice stream 0 h_length ++ [nul]
  | .dropped | .waiting => r.got < h_length
  | .stray => False

/-- So it is with every stream. -/
def Complete (h_length : Nat) (es : List Event) : Prop :=
  ∀ stream, (handleMessage h_length stream es).Complete h_length stream

/-- With `got` bytes of the message there, and behind `failures` failures: the rest comes without a
timeout or a failure before it is complete; or a `recv` fails, and the message is given up before
all of it has come, and no piece comes before as many bytes are there as there are failures. -/
def Orderly (h_length : Nat) : List Event → Nat → Nat → Prop
  | [], got, failures | .selectFail :: _, got, failures | .closed :: _, got, failures =>
      (got = h_length ∧ failures = 0) ∨ got < h_length
  | .timeout :: _, got, failures => got = h_length ∧ failures = 0
  | .failed :: es, got, failures => (got = h_length ∧ failures = 0) ∨
      (got < h_length ∧ failures < got + 2 ^ 31 ∧ Orderly h_length es got (failures + 1))
  | .ready n :: es, got, failures => (got = h_length ∧ failures = 0) ∨
      (got < h_length ∧ failures ≤ got ∧
        Orderly h_length es (got + min (n + 1) (h_length - got + failures)) failures)

/-! ### The block -/

section
variable {stream : Nat → Char} {h_length got failures : Nat} {i : Int} {j : Nat} {rsp_msg : Text}

@[simp] theorem length_slice (a n : Nat) : (slice stream a n).length = n := by
  simp [slice]

theorem slice_append (a n k : Nat) :
    slice stream a n ++ slice stream (a + n) k = slice stream a (n + k) := by
  simp [slice, List.range_add, Nat.add_assoc]

/-- The block with the first bytes of the message. -/
def filled (stream : Nat → Char) (h_length got : Nat) : Text :=
  slice stream 0 got ++ List.replicate (h_length + 1 - got) nul

/-- A piece is written behind what is there. -/
theorem write_filled {k : Nat} (h : got + k ≤ h_length) :
    write (filled stream h_length got) got (slice stream got k)
      = some (filled stream h_length (got + k)) := by
  have hsplit : List.replicate (h_length + 1 - got) nul
      = List.replicate k nul ++ List.replicate (h_length + 1 - (got + k)) nul := by
    rw [← List.replicate_add]
    congr 1
    omega
  have hoverlay := overlay_append (a := slice stream 0 got) (m := List.replicate k nul)
    (t := slice stream got k) (by simp) (List.replicate (h_length + 1 - (got + k)) nul)
  rw [length_slice] at hoverlay
  have hnext : slice stream 0 got ++ slice stream got k = slice stream 0 (got + k) := by
    simpa using slice_append 0 got k
  rw [write, if_pos, filled, hsplit, hoverlay, ← List.append_assoc, hnext, filled]
  simp [filled]
  omega

/-- One event. -/
theorem loop_cons (h : i ≠ h_length) (e : Event) (es : List Event) :
    loop h_length stream i j got rsp_msg (e :: es) = match e with
      | .selectFail => ⟨.dropped, got⟩
      | .timeout => ⟨.parsed rsp_msg, got⟩
      | .closed => ⟨.dropped, got⟩
      | .failed =>
          if i = -2 ^ 31 then ⟨.stray, got⟩
          else loop h_length stream (i - 1) ((j + 1) % 2 ^ 32) got rsp_msg es
      | .ready n =>
          if i < 0 then ⟨.stray, got + min (n + 1) j⟩
          else (write rsp_msg i.toNat (slice stream got (min (n + 1) j))).elim
            ⟨.stray, got + min (n + 1) j⟩ fun rsp_msg =>
              loop h_length stream (i + (min (n + 1) j : Nat)) (j - min (n + 1) j)
                (got + min (n + 1) j) rsp_msg es := by
  rw [loop.eq_def]
  dsimp only
  rw [if_neg h]
  cases e <;> rfl

/-- All bytes of the count are there. -/
theorem loop_end (h : i = h_length) (es : List Event) :
    loop h_length stream i j got rsp_msg es = ⟨.parsed rsp_msg, got⟩ := by
  rw [loop.eq_def]
  exact if_pos h

/-! ### Orderly results -/

/-- Behind a failure there is no order once all bytes are there. -/
theorem lt_of_orderly {es : List Event} (h : Orderly h_length es got failures) :
    (got = h_length ∧ failures = 0) ∨ got < h_length := by
  cases es with
  | nil => exact h
  | cons e es =>
      cases e with
      | selectFail | closed => exact h
      | timeout => exact .inl h
      | failed | ready => exact h.imp_right fun h => h.1

/-- The counters behind so many bytes and failures. -/
structure Counters (h_length got failures : Nat) (i : Int) (j : Nat) : Prop where
  small : h_length < 2 ^ 20
  i_eq : i = got - failures
  j_eq : (j : Int) = h_length - i
  lower : -2 ^ 31 ≤ i

theorem Counters.failed (h : Counters h_length got failures i j) (hlow : i ≠ -2 ^ 31) :
    Counters h_length got (failures + 1) (i - 1) ((j + 1) % 2 ^ 32) := by
  obtain ⟨hsmall, hi, hj, hlower⟩ := h
  rw [Nat.mod_eq_of_lt (by omega)]
  exact ⟨hsmall, by omega, by omega, by omega⟩

theorem Counters.ready (h : Counters h_length got failures i j) {k : Nat} (hk : k ≤ j) :
    Counters h_length (got + k) failures (i + k) (j - k) := by
  obtain ⟨hsmall, hi, hj, hlower⟩ := h
  exact ⟨hsmall, by omega, by omega, by omega⟩

/-- Where no piece comes too early, the message is parsed as it is. -/
theorem Counters.complete {es : List Event} : ∀ {got failures : Nat} {i : Int} {j : Nat}
    {rsp_msg : Text}, Counters h_length got failures i j → rsp_msg.length = h_length + 1 →
      (failures = 0 → rsp_msg = filled stream h_length got) → Orderly h_length es got failures →
        (loop h_length stream i j got rsp_msg es).Complete h_length stream := by
  induction es with
  | nil =>
      intro got failures i j rsp_msg hc hlen hfilled ho
      obtain ⟨rfl, rfl⟩ | hlt := lt_of_orderly ho
      · rw [loop_end (by simp [hc.i_eq]), hfilled rfl]
        exact ⟨Nat.le_refl _, by simp [filled]⟩
      · have hi := hc.i_eq
        rw [loop, if_neg (by omega)]
        exact hlt
  | cons e es ih =>
      intro got failures i j rsp_msg hc hlen hfilled ho
      obtain ⟨rfl, rfl⟩ | hlt := lt_of_orderly ho
      · rw [loop_end (by simp [hc.i_eq]), hfilled rfl]
        exact ⟨Nat.le_refl _, by simp [filled]⟩
      have hi := hc.i_eq
      have hj := hc.j_eq
      have hdone : ¬ (got = h_length ∧ failures = 0) := fun h => by omega
      rw [loop_cons (by omega)]
      cases e with
      | selectFail | closed => exact hlt
      | timeout => exact absurd ho hdone
      | failed =>
          obtain ⟨-, hlow, ho⟩ := ho.resolve_left hdone
          dsimp only
          rw [if_neg (by omega)]
          exact ih (hc.failed (by omega)) hlen (by simp) ho
      | ready n =>
          obtain ⟨-, hpos, ho⟩ := ho.resolve_left hdone
          -- `j` has grown with each failure, so that the call may ask for more than is left
          have hret : min (n + 1) (h_length - got + failures) = min (n + 1) j := by omega
          have hle := Nat.min_le_right (n + 1) j
          rw [hret] at ho
          dsimp only
          generalize min (n + 1) j = ret at ho hle ⊢
          rw [if_neg (by omega)]
          obtain ⟨rsp_msg', hwrite, hlen', hfilled'⟩ : ∃ rsp_msg', write rsp_msg i.toNat
              (slice stream got ret) = some rsp_msg' ∧ rsp_msg'.length = h_length + 1 ∧
              (failures = 0 → rsp_msg' = filled stream h_length (got + ret)) := by
            have hfits : i.toNat + (slice stream got ret).length ≤ rsp_msg.length := by
              rw [length_slice, hlen]
              omega
            refine ⟨_, if_pos hfits, (length_overlay hfits).trans hlen, fun hnone => ?_⟩
            have hput : write (filled stream h_length got) got (slice stream got ret)
                = some (filled stream h_length (got + ret)) := write_filled (by omega)
            have hat : i.toNat = got := by omega
            rw [hat] at hfits ⊢
            rw [write, ← hfilled hnone, if_pos hfits] at hput
            exact Option.some.inj hput
          rw [hwrite]
          exact ih (hc.ready hle) hlen' hfilled' ho

/-! ### A piece out of place -/

/-- A stream that tells the first bytes from the others. -/
def marked (g : Nat) : Nat → Char := fun k => if k < g then 'a' else 'b'

theorem mem_slice_marked {g a n : Nat} (h : g ≤ a) {c : Char} (hc : c ∈ slice (marked g) a n) :
    c = 'b' := by
  obtain ⟨d, -, rfl⟩ := List.mem_map.mp hc
  exact if_neg (by omega)

theorem getElem?_slice_marked {g n p : Nat} (hp : p < g) (hn : g ≤ n) (t : Text) :
    (slice (marked g) 0 n ++ t)[p]? = some 'a' := by
  rw [List.getElem?_append_left (by simp; omega)]
  simp [slice, marked, hp, Nat.lt_of_lt_of_le hp hn]

/-- A byte of the block is an old one or one of the piece. -/
theorem getElem?_overlay {s t : Text} {a p : Nat} (h : a + t.length ≤ s.length) :
    (overlay s a t)[p]? = s[p]? ∨ ∃ c ∈ t, (overlay s a t)[p]? = some c := by
  have hleft : (s.take a ++ t).length = a + t.length := by
    rw [List.length_append, List.length_take]
    omega
  rw [overlay]
  by_cases hin : p < a + t.length
  · rw [List.getElem?_append_left (by omega)]
    by_cases hlow : p < a
    · rw [List.getElem?_append_left (by rw [List.length_take]; omega),
        List.getElem?_take_of_lt hlow]
      exact .inl rfl
    · rw [List.getElem?_append_right (by rw [List.length_take]; omega), List.length_take,
        Nat.min_eq_left (by omega)]
      have hget := List.getElem?_eq_getElem (l := t) (i := p - a) (by omega)
      exact .inr ⟨_, List.getElem_mem _, hget⟩
  · rw [List.getElem?_append_right (by omega), hleft, List.getElem?_drop]
    exact .inl (by congr 1; omega)

/-- The first byte of a piece is in the block. -/
theorem getElem?_overlay_self {s t : Text} {a : Nat} {c : Char} (h : a + t.length ≤ s.length)
    (ht : t[0]? = some c) : (overlay s a t)[a]? = some c := by
  have hleft : (s.take a).length = a := by
    rw [List.length_take]
    omega
  obtain ⟨hpos, -⟩ := List.getElem?_eq_some_iff.mp ht
  rw [overlay, List.getElem?_append_left (by rw [List.length_append]; omega),
    List.getElem?_append_right (by omega), hleft, Nat.sub_self, ht]

/-- Behind the first failure, with `g` bytes there: the next piece goes over one of these, or one
has gone over it. -/
def Spoilt (g got : Nat) (i : Int) (rsp_msg : Text) : Prop :=
  (got = g ∧ i < g) ∨ ∃ p < g, rsp_msg[p]? = some 'b'

/-- With all bytes there the block is not the message. -/
theorem Spoilt.ne {g : Nat} (h : Spoilt g got i rsp_msg) (hg : g < h_length)
    (hgot : h_length ≤ got) : rsp_msg ≠ slice (marked g) 0 h_length ++ [nul] := by
  rintro rfl
  obtain ⟨rfl, -⟩ | ⟨p, hp, hbyte⟩ := h
  · omega
  · rw [getElem?_slice_marked hp (Nat.le_of_lt hg)] at hbyte
    exact absurd hbyte (by decide)

/-- A piece leaves it so. -/
theorem Spoilt.ready {g ret : Nat} (h : Spoilt g got i rsp_msg) (hg : g ≤ got) (hi : 0 ≤ i)
    (hret : 0 < ret) (hfits : i.toNat + (slice (marked g) got ret).length ≤ rsp_msg.length) :
    Spoilt g (got + ret) (i + ret) (overlay rsp_msg i.toNat (slice (marked g) got ret)) := by
  obtain ⟨rfl, hlt⟩ | ⟨p, hp, hbyte⟩ := h
  · refine .inr ⟨i.toNat, by omega, getElem?_overlay_self hfits ?_⟩
    simp [slice, marked, hret]
  · refine .inr ⟨p, hp, ?_⟩
    rcases getElem?_overlay hfits (p := p) with hold | ⟨c, hc, hnew⟩
    · rw [hold, hbyte]
    · rw [hnew, mem_slice_marked hg hc]

/-- Behind a failure, results that are not in order do harm. -/
theorem Counters.spoilt {g : Nat} (hg : g < h_length) {es : List Event} : ∀ {got failures : Nat}
    {i : Int} {j : Nat} {rsp_msg : Text}, Counters h_length got failures i j → failures ≠ 0 →
      rsp_msg.length = h_length + 1 → g ≤ got → Spoilt g got i rsp_msg →
        ¬ Orderly h_length es got failures →
          ¬ (loop h_length (marked g) i j got rsp_msg es).Complete h_length (marked g) := by
  induction es with
  | nil =>
      intro got failures i j rsp_msg hc hf hlen hgot hs ho
      have hall : h_length ≤ got := Nat.not_lt.mp fun h => ho (.inr h)
      rw [loop]
      split
      · exact fun h => hs.ne hg hall h.2
      · exact fun h => absurd h (Nat.not_lt.mpr hall)
  | cons e es ih =>
      intro got failures i j rsp_msg hc hf hlen hgot hs ho
      have hi := hc.i_eq
      have hj := hc.j_eq
      by_cases hend : i = h_length
      · rw [loop_end hend]
        exact fun h => hs.ne hg h.1 h.2
      · rw [loop_cons hend]
        cases e with
        | selectFail | closed => exact fun h => ho (.inr h)
        | timeout => exact fun h => hs.ne hg h.1 h.2
        | failed =>
            dsimp only
            split
            next => exact id
            next hlow =>
              have hnext : Spoilt g got (i - 1) rsp_msg :=
                hs.imp_left fun h => ⟨h.1, by omega⟩
              refine ih (hc.failed hlow) (by omega) hlen hgot hnext fun hrest => ho (.inr ?_)
              have hlt := (lt_of_orderly hrest).resolve_left (by omega)
              have hlower := hc.lower
              exact ⟨hlt, by omega, hrest⟩
        | ready n =>
            have hret : min (n + 1) (h_length - got + failures) = min (n + 1) j ∨
                h_length ≤ got := by omega
            have hle := Nat.min_le_right (n + 1) j
            have hpos : 0 < min (n + 1) j := by omega
            simp only [Orderly] at ho
            dsimp only
            generalize min (n + 1) j = ret at hret hle hpos ⊢
            split
            next => exact id
            next hfront =>
              have hfits : i.toNat + (slice (marked g) got ret).length ≤ rsp_msg.length := by
                rw [length_slice, hlen]
                omega
              rw [write, if_pos hfits]
              refine ih (hc.ready hle) hf ((length_overlay hfits).trans hlen) (by omega)
                (hs.ready hgot (by omega) hpos hfits) fun hrest => ho (.inr ?_)
              have hlt := (lt_of_orderly hrest).resolve_left (by omega)
              rw [hret.resolve_right (by omega)]
              exact ⟨by omega, by omega, hrest⟩

/-- Results that are not in order do harm to some message. -/
theorem Counters.not_complete {es : List Event} : ∀ {got : Nat} {i : Int} {j : Nat},
    Counters h_length got 0 i j → ¬ Orderly h_length es got 0 →
      ∃ stream, ¬ (loop h_length stream i j got (filled stream h_length got) es).Complete
        h_length stream := by
  induction es with
  | nil =>
      intro got i j hc ho
      have hi := hc.i_eq
      have hj := hc.j_eq
      exact absurd (by omega : (got = h_length ∧ 0 = 0) ∨ got < h_length) ho
  | cons e es ih =>
      intro got i j hc ho
      have hi := hc.i_eq
      have hj := hc.j_eq
      have hlt : got < h_length := by
        by_contra hge
        have hend : got = h_length ∧ 0 = 0 := by omega
        refine ho ?_
        cases e with
        | timeout => exact hend
        | selectFail | closed | failed | ready => exact .inl hend
      simp only [loop_cons (show i ≠ h_length by omega)]
      cases e with
      | selectFail | closed => exact absurd (.inr hlt) ho
      | timeout => exact ⟨marked 0, fun h => Nat.not_le_of_lt hlt h.1⟩
      | failed =>
          have hrest : ¬ Orderly h_length es got 1 := fun h => ho (.inr ⟨hlt, by omega, h⟩)
          -- the bytes that are there are marked, and the next piece goes over the last of them
          refine ⟨marked got, ?_⟩
          dsimp only
          rw [if_neg (by omega)]
          exact Counters.spoilt hlt (hc.failed (by omega)) Nat.one_ne_zero (by simp [filled]; omega)
            (Nat.le_refl _) (.inl ⟨rfl, by omega⟩) hrest
      | ready n =>
          have hret : min (n + 1) (h_length - got + 0) = min (n + 1) j := by omega
          have hle := Nat.min_le_right (n + 1) j
          have hrest : ¬ Orderly h_length es (got + min (n + 1) j) 0 := fun h =>
            ho (.inr ⟨hlt, Nat.zero_le _, by rwa [hret]⟩)
          obtain ⟨stream, hs⟩ := ih (hc.ready hle) hrest
          refine ⟨stream, ?_⟩
          have hat : i.toNat = got := by omega
          dsimp only
          rw [if_neg (by omega), hat, write_filled (by omega)]
          exact hs

end

/-- The message is parsed just when it is complete, whatever it is, and each piece is written into
its block, exactly when the results come in order. -/
theorem complete_iff (h_length : Nat) (es : List Event) :
    Complete h_length es ↔ 1024 * 1024 ≤ h_length ∨ Orderly h_length es 0 0 := by
  rw [Complete]
  by_cases hlarge : 1024 * 1024 ≤ h_length
  · refine iff_of_true (fun stream => ?_) (.inl hlarge)
    rw [handleMessage, if_pos hlarge]
    exact Nat.lt_of_lt_of_le (by decide) hlarge
  · have hc : Counters h_length 0 0 0 h_length := ⟨by omega, by simp, by simp, by decide⟩
    have hblock : ∀ stream, List.replicate (h_length + 1) nul = filled stream h_length 0 := by
      intro stream
      simp [filled, slice]
    simp only [handleMessage, hlarge, if_false, false_or]
    constructor
    · intro h
      by_contra ho
      obtain ⟨stream, hs⟩ := hc.not_complete ho
      have hstream := h stream
      rw [hblock stream] at hstream
      exact hs hstream
    · intro ho stream
      exact hc.complete (by simp) (fun _ => hblock stream) ho

/-- A message of four bytes of which two come before the timeout. -/
theorem timeout_incomplete : ¬ Complete 4 [.ready 1, .timeout] := by
  intro h
  have hgot : 4 ≤ 2 := (h fun _ => 'a').1
  omega

end Edm.Cachedb.HandleMessage
